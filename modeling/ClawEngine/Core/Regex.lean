import Mathlib.Data.List.Basic

/-!
# Regular expressions

`re.match` and `re.fullmatch` for patterns that are sequences of character classes, each matched
once, any number of times or at least once, between the anchors `^` and `$`. As documented, `match`
starts at the first character and need not reach the last one, `fullmatch` does reach it; `$`
matches at the end of the text and also before a newline that is its last character.
-/

set_option autoImplicit false

namespace ClawEngine.Core

/-- One piece of a pattern. -/
inductive RegexPiece
  | caret
  | one (inClass : Char → Bool)
  | many (inClass : Char → Bool)
  | some (inClass : Char → Bool)
  | dollar

namespace Regex

/-- `*`: as many characters of the class as `rest` leaves, tried longest first. -/
def manyThen (inClass : Char → Bool) (rest : List Char → Bool) : List Char → Bool
  | [] => rest []
  | c :: cs => (inClass c && manyThen inClass rest cs) || rest (c :: cs)

/-- One character of the class. -/
def oneThen (inClass : Char → Bool) (rest : List Char → Bool) : List Char → Bool
  | [] => false
  | c :: cs => inClass c && rest cs

/-- `pattern.match(text)` has a match; `s` is what is left of the text. -/
def matchFrom (text : List Char) : List RegexPiece → List Char → Bool
  | [], _ => true
  | .caret :: ps, s => s.length == text.length && matchFrom text ps s
  | .one inClass :: ps, s => oneThen inClass (matchFrom text ps) s
  | .many inClass :: ps, s => manyThen inClass (matchFrom text ps) s
  | .some inClass :: ps, s => oneThen inClass (manyThen inClass (matchFrom text ps)) s
  | .dollar :: ps, s => (s == [] || s == ['\n']) && matchFrom text ps s

/-- `re.compile(pattern).match(text) is not None`. -/
def isMatch (pattern : List RegexPiece) (text : String) : Bool :=
  matchFrom text.toList pattern text.toList

/-- `pattern.fullmatch(text)` has a match; `s` is what is left of the text. -/
def fullMatchFrom (text : List Char) : List RegexPiece → List Char → Bool
  | [], s => s == []
  | .caret :: ps, s => s.length == text.length && fullMatchFrom text ps s
  | .one inClass :: ps, s => oneThen inClass (fullMatchFrom text ps) s
  | .many inClass :: ps, s => manyThen inClass (fullMatchFrom text ps) s
  | .some inClass :: ps, s => oneThen inClass (manyThen inClass (fullMatchFrom text ps)) s
  | .dollar :: ps, s => (s == [] || s == ['\n']) && fullMatchFrom text ps s

/-- `re.compile(pattern).fullmatch(text) is not None`. -/
def isFullMatch (pattern : List RegexPiece) (text : String) : Bool :=
  fullMatchFrom text.toList pattern text.toList

section Spec

variable {inClass : Char → Bool} {rest : List Char → Bool} {text s : List Char}
  {ps : List RegexPiece}

theorem manyThen_iff : manyThen inClass rest s = true ↔
    ∃ pre post, s = pre ++ post ∧ (∀ c ∈ pre, inClass c = true) ∧ rest post = true := by
  induction s with
  | nil =>
    refine ⟨fun h => ⟨[], [], rfl, nofun, h⟩, ?_⟩
    rintro ⟨pre, post, hsplit, -, hrest⟩
    obtain ⟨rfl, rfl⟩ := List.append_eq_nil_iff.mp hsplit.symm
    exact hrest
  | cons c cs ih =>
    rw [manyThen, Bool.or_eq_true, Bool.and_eq_true, ih]
    constructor
    · rintro (⟨hc, pre, post, rfl, hpre, hrest⟩ | hrest)
      · exact ⟨c :: pre, post, rfl, List.forall_mem_cons.mpr ⟨hc, hpre⟩, hrest⟩
      · exact ⟨[], c :: cs, rfl, nofun, hrest⟩
    · rintro ⟨pre, post, hsplit, hpre, hrest⟩
      cases pre with
      | nil => exact .inr (hsplit ▸ hrest)
      | cons d pre =>
        obtain ⟨rfl, rfl⟩ := List.cons.inj hsplit
        obtain ⟨hd, hpre⟩ := List.forall_mem_cons.mp hpre
        exact .inl ⟨hd, pre, post, rfl, hpre, hrest⟩

theorem oneThen_iff : oneThen inClass rest s = true ↔
    ∃ c post, s = c :: post ∧ inClass c = true ∧ rest post = true := by
  cases s with
  | nil => exact ⟨nofun, fun ⟨_, _, h, _⟩ => nomatch h⟩
  | cons c cs =>
    rw [oneThen, Bool.and_eq_true]
    constructor
    · rintro ⟨hc, hrest⟩
      exact ⟨c, cs, rfl, hc, hrest⟩
    · rintro ⟨d, post, hsplit, hd, hrest⟩
      obtain ⟨rfl, rfl⟩ := List.cons.inj hsplit
      exact ⟨hd, hrest⟩

theorem matchFrom_caret : matchFrom text (.caret :: ps) text = matchFrom text ps text := by
  rw [matchFrom, beq_self_eq_true, Bool.true_and]

/-- What is left where a pattern ends in `$`: nothing, or a newline. -/
theorem matchFrom_dollar : matchFrom text [.dollar] s = true ↔ s = [] ∨ s = ['\n'] := by
  rw [matchFrom, matchFrom, Bool.and_true, Bool.or_eq_true, beq_iff_eq, beq_iff_eq]

/-- `[..]+` matches the whole of a text of at least one character, all of the class. -/
theorem isFullMatch_some {s : String} :
    isFullMatch [.some inClass] s = true ↔ s ≠ "" ∧ ∀ c ∈ s.toList, inClass c = true := by
  rw [isFullMatch, fullMatchFrom, oneThen_iff]
  constructor
  · rintro ⟨c, post, hs, hc, hrest⟩
    obtain ⟨pre, post, rfl, hpre, hend⟩ := manyThen_iff.mp hrest
    obtain rfl : post = [] := beq_iff_eq.mp hend
    rw [List.append_nil] at hs
    refine ⟨?_, hs ▸ List.forall_mem_cons.mpr ⟨hc, hpre⟩⟩
    rintro rfl
    cases hs
  · rintro ⟨hne, hall⟩
    obtain ⟨c, cs, hs⟩ := List.exists_cons_of_ne_nil (mt String.toList_eq_nil_iff.mp hne)
    rw [hs] at hall ⊢
    obtain ⟨hc, hcs⟩ := List.forall_mem_cons.mp hall
    exact ⟨c, cs, rfl, hc, manyThen_iff.mpr ⟨cs, [], (List.append_nil cs).symm, hcs, rfl⟩⟩

end Spec

end Regex

end ClawEngine.Core
