import ClawEngine.Core.Json
import ClawEngine.Core.PyText
import Mathlib.Algebra.Group.Nat.Defs

/-!
# Texts of JSON values

`repr(value)` and `str(value)` of what a decoder returns, as lists of characters. `FloatText` is the
text of a float: two floats have two texts (the zeros `0.0` and `-0.0`), and no text is that of an
integer.

A text spells one value. More than that: where what follows a value begins with a separator or a
closing bracket, the text tells where the value ends (`reprValue_append_inj`), which is what the
induction over nested values needs. A `str` of a text is the text itself, so `str` is injective on
texts and on the other values, and not across the two.
-/

set_option autoImplicit false

namespace ClawEngine.Core

/-! ## Numbers -/

/-- `repr(i)`. -/
def reprInt : Int → List Char
  | .ofNat n => Nat.toDigits 10 n
  | .negSucc n => '-' :: Nat.toDigits 10 (n + 1)

/-- The characters of a number: digits, point, exponent, signs, and those of `inf` and `nan`. -/
def isNumberChar (c : Char) : Bool :=
  c.isDigit || ['.', 'e', '+', '-', 'i', 'n', 'f', 'a'].contains c

/-- `repr(x)` of a float. -/
structure FloatText where
  text : PyFloat → List Char
  injective : Function.Injective text
  nonempty : ∀ x, text x ≠ []
  chars : ∀ x, ∀ c ∈ text x, isNumberChar c = true
  not_int : ∀ x i, text x ≠ reprInt i

/-! ## Values -/

section Texts

variable (py : Interpreter) (floats : FloatText)

mutual

/-- `repr(value)`. -/
def reprValue : Json → List Char
  | .null => ['N', 'o', 'n', 'e']
  | .bool true => ['T', 'r', 'u', 'e']
  | .bool false => ['F', 'a', 'l', 's', 'e']
  | .int i => reprInt i
  | .float x => floats.text x
  | .str s => (reprStr py s).toList
  | .arr [] => ['[', ']']
  | .arr (v :: rest) => '[' :: reprValue v ++ reprItems rest ++ [']']
  | .obj [] => ['{', '}']
  | .obj (m :: rest) => '{' :: reprMember m ++ reprMembers rest ++ ['}']

/-- The items of a list after its first. -/
def reprItems : List Json → List Char
  | [] => []
  | v :: rest => [',', ' '] ++ reprValue v ++ reprItems rest

/-- A key with its value. -/
def reprMember : String × Json → List Char
  | (key, v) => (reprStr py key).toList ++ [':', ' '] ++ reprValue v

/-- The members of a dictionary after its first. -/
def reprMembers : List (String × Json) → List Char
  | [] => []
  | m :: rest => [',', ' '] ++ reprMember m ++ reprMembers rest

end

/-- `str(value)`. -/
def strValue : Json → List Char
  | .str s => s.toList
  | v => reprValue py floats v

end Texts

/-! ## Words and digits -/

/-- Two words of one class of characters, each before a character outside it. -/
theorem append_inj_of_span {A : Type} {p : A → Bool} {xs ys s t : List A}
    (hxs : ∀ c ∈ xs, p c = true) (hys : ∀ c ∈ ys, p c = true)
    (hs : ∀ c ∈ s.head?, p c = false) (ht : ∀ c ∈ t.head?, p c = false)
    (h : xs ++ s = ys ++ t) : xs = ys ∧ s = t := by
  have hstop : ∀ {r : List A}, (∀ c ∈ r.head?, p c = false) → r.takeWhile p = [] := by
    intro r hr
    cases r with
    | nil => rfl
    | cons c r => exact List.takeWhile_cons_of_neg (by rw [hr c rfl]; exact Bool.false_ne_true)
  have hword := congrArg (List.takeWhile p) h
  rw [List.takeWhile_append_of_pos hxs, List.takeWhile_append_of_pos hys, hstop hs, hstop ht,
    List.append_nil, List.append_nil] at hword
  subst hword
  exact ⟨rfl, List.append_cancel_left h⟩

theorem toDigits_inj {m n : Nat} (h : Nat.toDigits 10 m = Nat.toDigits 10 n) : m = n := by
  have hm := Nat.ofDigitChars_ten_toDigits (n := m)
  rw [h, Nat.ofDigitChars_ten_toDigits] at hm
  exact hm.symm

theorem isDigit_of_toDigits {n : Nat} {c : Char} (h : c ∈ Nat.toDigits 10 n) : c.isDigit = true :=
  Nat.isDigit_of_mem_toDigits (by decide) (by decide) h

theorem reprInt_inj {i j : Int} (h : reprInt i = reprInt j) : i = j := by
  have hsign : ∀ (m n : Nat), Nat.toDigits 10 m ≠ '-' :: Nat.toDigits 10 n := by
    intro m n hmn
    have hdigit := isDigit_of_toDigits (n := m) (hmn ▸ List.mem_cons_self)
    exact absurd hdigit (by decide)
  cases i with
  | ofNat m =>
    cases j with
    | ofNat n => exact congrArg _ (toDigits_inj h)
    | negSucc n => exact absurd h (hsign m (n + 1))
  | negSucc m =>
    cases j with
    | ofNat n => exact absurd h.symm (hsign n (m + 1))
    | negSucc n =>
      have hmn := toDigits_inj (List.cons.inj h).2
      rw [Nat.succ.inj hmn]

theorem reprInt_ne_nil (i : Int) : reprInt i ≠ [] := by
  cases i with
  | ofNat n => exact Nat.toDigits_ne_nil
  | negSucc n => exact List.cons_ne_nil _ _

theorem reprInt_chars {i : Int} {c : Char} (h : c ∈ reprInt i) : isNumberChar c = true := by
  have hdigit : ∀ {n : Nat}, c ∈ Nat.toDigits 10 n → isNumberChar c = true := by
    intro n hc
    rw [isNumberChar, isDigit_of_toDigits hc, Bool.true_or]
  cases i with
  | ofNat n => exact hdigit h
  | negSucc n =>
    rcases List.mem_cons.mp h with rfl | h
    · decide
    · exact hdigit h

theorem length_hexDigits (width n : Nat) : (hexDigits width n).length = width := by
  induction width generalizing n with
  | zero => rfl
  | succ width ih => rw [hexDigits, List.length_append, ih, List.length_singleton]

theorem digitChar_inj : ∀ m < 16, ∀ n < 16, Nat.digitChar m = Nat.digitChar n → m = n := by decide

theorem hexDigits_inj {width m n : Nat} (hm : m < 16 ^ width) (hn : n < 16 ^ width)
    (h : hexDigits width m = hexDigits width n) : m = n := by
  induction width generalizing m n with
  | zero =>
    rw [Nat.pow_zero] at hm hn
    omega
  | succ width ih =>
    obtain ⟨hhigh, hlow⟩ := List.append_inj h (by rw [length_hexDigits, length_hexDigits])
    have hdigit := digitChar_inj _ (Nat.mod_lt m (by decide)) _ (Nat.mod_lt n (by decide))
      (List.cons.inj hlow).1
    rw [Nat.pow_succ] at hm hn
    have hquot := ih (by omega) (by omega) hhigh
    omega

/-! ## Characters of a text -/

/-- How many hexadecimal digits follow the letter of an escape. -/
def escapeWidth (letter : Char) : Nat :=
  if letter = 'x' then 2 else if letter = 'u' then 4 else if letter = 'U' then 8 else 0

/-- The character that an escape without digits stands for. -/
def escaped (letter : Char) : Char :=
  if letter = 't' then '\t' else if letter = 'n' then '\n' else if letter = 'r' then '\r'
  else letter

/-- A character of a text is written as itself, or as an escape from which it can be read. -/
inductive Written (quote c : Char) : List Char → Prop
  | plain (hquote : c ≠ quote) (hslash : c ≠ '\\') : Written quote c [c]
  | escape (letter : Char) (hshort : escapeWidth letter = 0 → c = escaped letter)
      (hlong : escapeWidth letter ≠ 0 → c.toNat < 16 ^ escapeWidth letter) :
      Written quote c ('\\' :: letter :: hexDigits (escapeWidth letter) c.toNat)

section Characters

variable {py : Interpreter} {quote c d : Char} {s t : List Char}

theorem reprChar_written (hquote : quote = '\'' ∨ quote = '"') :
    Written quote c (reprChar py quote c) := by
  have hshort : escapeWidth quote = 0 ∧ escaped quote = quote := by
    rcases hquote with rfl | rfl <;> decide
  have hbound : c.toNat < 16 ^ 8 := c.val.toNat_lt
  unfold reprChar
  split_ifs with hself htab hline hreturn hcontrol hprintable hbyte hshortWord
  · rcases hself with rfl | rfl
    · have h : Written c c ('\\' :: c :: hexDigits (escapeWidth c) c.toNat) :=
        .escape c (fun _ => hshort.2.symm) (fun h => absurd hshort.1 h)
      rw [hshort.1] at h
      exact h
    · exact .escape '\\' (fun _ => rfl) (fun h => absurd rfl h)
  · exact htab ▸ .escape 't' (fun _ => rfl) (fun h => absurd rfl h)
  · exact hline ▸ .escape 'n' (fun _ => rfl) (fun h => absurd rfl h)
  · exact hreturn ▸ .escape 'r' (fun _ => rfl) (fun h => absurd rfl h)
  · refine .escape 'x' (fun h => absurd h (by decide)) (fun _ => ?_)
    have : escapeWidth 'x' = 2 := rfl
    rw [this]
    omega
  · exact .plain (fun h => hself (.inl h)) (fun h => hself (.inr h))
  · exact .escape 'x' (fun h => absurd h (by decide)) (fun _ => Nat.lt_succ_of_le hbyte)
  · exact .escape 'u' (fun h => absurd h (by decide)) (fun _ => Nat.lt_succ_of_le hshortWord)
  · exact .escape 'U' (fun h => absurd h (by decide)) (fun _ => hbound)

/-- What is written first can be read. -/
theorem Written.inj {w w' : List Char} (hw : Written quote c w) (hw' : Written quote d w')
    (h : w ++ s = w' ++ t) : c = d ∧ s = t := by
  cases hw with
  | plain _ hslash =>
    cases hw' with
    | plain => exact List.cons.inj h
    | escape => exact absurd (List.cons.inj h).1 hslash
  | escape letter hshort hlong =>
    cases hw' with
    | plain _ hslash => exact absurd (List.cons.inj h).1.symm hslash
    | escape letter' hshort' hlong' =>
      obtain ⟨hletter, h⟩ := List.cons.inj (List.cons.inj h).2
      subst hletter
      obtain ⟨hdigits, hst⟩ := List.append_inj h (by rw [length_hexDigits, length_hexDigits])
      refine ⟨?_, hst⟩
      by_cases hwidth : escapeWidth letter = 0
      · rw [hshort hwidth, hshort' hwidth]
      · exact Char.toNat_inj.mp (hexDigits_inj (hlong hwidth) (hlong' hwidth) hdigits)

/-- No character of a text is written with the quote in front. -/
theorem Written.ne_quote {w : List Char} (hquote : quote = '\'' ∨ quote = '"')
    (hw : Written quote c w) : w ++ s ≠ quote :: t := by
  cases hw with
  | plain hne => exact fun h => hne (List.cons.inj h).1
  | escape =>
    intro h
    have hslash := (List.cons.inj h).1
    rcases hquote with rfl | rfl <;> exact absurd hslash (by decide)

/-- The characters of a text, up to its closing quote. -/
theorem flatMap_reprChar_inj (hquote : quote = '\'' ∨ quote = '"') {cs ds : List Char}
    (h : cs.flatMap (reprChar py quote) ++ quote :: s =
      ds.flatMap (reprChar py quote) ++ quote :: t) : cs = ds ∧ s = t := by
  induction cs generalizing ds with
  | nil =>
    cases ds with
    | nil => exact ⟨rfl, (List.cons.inj h).2⟩
    | cons d ds =>
      rw [List.flatMap_cons, List.append_assoc] at h
      exact absurd h.symm (Written.ne_quote hquote (reprChar_written hquote))
  | cons c cs ih =>
    cases ds with
    | nil =>
      rw [List.flatMap_cons, List.append_assoc] at h
      exact absurd h (Written.ne_quote hquote (reprChar_written hquote))
    | cons d ds =>
      rw [List.flatMap_cons, List.flatMap_cons, List.append_assoc, List.append_assoc] at h
      obtain ⟨hcd, h⟩ := (reprChar_written hquote).inj (reprChar_written hquote) h
      obtain ⟨hrest, hst⟩ := ih h
      exact ⟨by rw [hcd, hrest], hst⟩

/-- A text in quotes: which quote, and the characters in between. -/
theorem reprStr_eq (py : Interpreter) (a : String) : ∃ quote, (quote = '\'' ∨ quote = '"') ∧
    (reprStr py a).toList = quote :: (a.toList.flatMap (reprChar py quote) ++ [quote]) := by
  unfold reprStr
  split_ifs
  · exact ⟨'"', .inr rfl, by rw [String.toList_ofList]; rfl⟩
  · exact ⟨'\'', .inl rfl, by rw [String.toList_ofList]; rfl⟩

theorem reprStr_append_inj {a b : String}
    (h : (reprStr py a).toList ++ s = (reprStr py b).toList ++ t) : a = b ∧ s = t := by
  obtain ⟨quote, hquote, ha⟩ := reprStr_eq py a
  obtain ⟨quote', -, hb⟩ := reprStr_eq py b
  rw [ha, hb, List.cons_append, List.cons_append, List.append_assoc, List.append_assoc] at h
  obtain ⟨rfl, h⟩ := List.cons.inj h
  obtain ⟨hchars, hst⟩ := flatMap_reprChar_inj hquote h
  exact ⟨String.toList_inj.mp hchars, hst⟩

end Characters

/-! ## Values apart -/

/-- Induction over nested values: what holds of the items holds of the list. -/
theorem Json.nested {P : Json → Prop} (null : P .null) (bool : ∀ b, P (.bool b))
    (int : ∀ i, P (.int i)) (float : ∀ x, P (.float x)) (str : ∀ s, P (.str s))
    (arr : ∀ items, (∀ v ∈ items, P v) → P (.arr items))
    (obj : ∀ members, (∀ m ∈ members, P m.2) → P (.obj members)) (v : Json) : P v :=
  @Json.rec P (fun items => ∀ v ∈ items, P v) (fun members => ∀ m ∈ members, P m.2)
    (fun m => P m.2) null bool int float str arr obj (List.forall_mem_nil _)
    (fun _ _ hv hrest => List.forall_mem_cons.mpr ⟨hv, hrest⟩) (List.forall_mem_nil _)
    (fun _ _ hm hrest => List.forall_mem_cons.mpr ⟨hm, hrest⟩) (fun _ _ hv => hv) v

/-- What the first character of a text says of the value. -/
inductive Lead
  | none | yes | no | list | dict | text | number
  deriving DecidableEq

/-- The kind of value that begins with a character. -/
def leadOf (c : Char) : Lead :=
  if c = 'N' then .none else if c = 'T' then .yes else if c = 'F' then .no
  else if c = '[' then .list else if c = '{' then .dict
  else if c = '\'' ∨ c = '"' then .text else .number

namespace Json

def lead : Json → Lead
  | .null => .none
  | .bool true => .yes
  | .bool false => .no
  | .int _ | .float _ => .number
  | .str _ => .text
  | .arr _ => .list
  | .obj _ => .dict

variable {v : Json}

theorem eq_null_of_lead (h : v.lead = .none) : v = .null := by
  cases v with
  | null => rfl
  | bool b => cases b <;> cases h
  | _ => cases h

theorem eq_bool_of_lead {b : Bool} (h : v.lead = (Json.bool b).lead) : v = .bool b := by
  cases v with
  | bool b' => cases b <;> cases b' <;> first | rfl | cases h
  | _ => cases b <;> cases h

theorem eq_str_of_lead (h : v.lead = .text) : ∃ s, v = .str s := by
  cases v with
  | str s => exact ⟨s, rfl⟩
  | bool b => cases b <;> cases h
  | _ => cases h

theorem eq_arr_of_lead (h : v.lead = .list) : ∃ items, v = .arr items := by
  cases v with
  | arr items => exact ⟨items, rfl⟩
  | bool b => cases b <;> cases h
  | _ => cases h

theorem eq_obj_of_lead (h : v.lead = .dict) : ∃ members, v = .obj members := by
  cases v with
  | obj members => exact ⟨members, rfl⟩
  | bool b => cases b <;> cases h
  | _ => cases h

end Json

/-- The separators and the closing brackets. -/
def isDelimiter (c : Char) : Bool := [',', ']', '}'].contains c

/-- Nothing follows, or a separator or a closing bracket. -/
def Delimited (s : List Char) : Prop := ∀ c ∈ s.head?, isDelimiter c = true

theorem Delimited.nil : Delimited [] := by
  intro c hc
  cases hc

theorem Delimited.cons {c : Char} {s : List Char} (h : isDelimiter c = true) :
    Delimited (c :: s) := by
  intro d hd
  cases hd
  exact h

theorem lead_of_number {c : Char} (h : isNumberChar c = true) : leadOf c = .number := by
  have hne : ∀ d : Char, isNumberChar d = false → c ≠ d := by
    rintro d hd rfl
    rw [h] at hd
    cases hd
  simp only [leadOf, hne 'N' (by decide), hne 'T' (by decide), hne 'F' (by decide),
    hne '[' (by decide), hne '{' (by decide), hne '\'' (by decide), hne '"' (by decide),
    or_self, if_false]

theorem isDelimiter_of_number {c : Char} (h : isNumberChar c = true) : isDelimiter c = false := by
  have hne : ∀ d : Char, isNumberChar d = false → c ≠ d := by
    rintro d hd rfl
    rw [h] at hd
    cases hd
  simp only [isDelimiter, List.contains_cons, List.contains_nil, Bool.or_false,
    beq_eq_false_iff_ne.mpr (hne ',' (by decide)), beq_eq_false_iff_ne.mpr (hne ']' (by decide)),
    beq_eq_false_iff_ne.mpr (hne '}' (by decide))]

section Values

variable {py : Interpreter} {floats : FloatText} {s t : List Char}

/-- A text begins with a character of its value's kind. -/
theorem reprValue_lead (py : Interpreter) (floats : FloatText) (v : Json) :
    ∃ c rest, reprValue py floats v = c :: rest ∧ leadOf c = v.lead ∧
      isDelimiter c = false := by
  have hword : ∀ {w : List Char}, w ≠ [] → (∀ c ∈ w, isNumberChar c = true) →
      ∃ c rest, w = c :: rest ∧ leadOf c = .number ∧ isDelimiter c = false := by
    intro w hne hchars
    cases w with
    | nil => exact absurd rfl hne
    | cons c rest =>
      have hc := hchars c List.mem_cons_self
      exact ⟨c, rest, rfl, lead_of_number hc, isDelimiter_of_number hc⟩
  cases v with
  | null => exact ⟨_, _, rfl, rfl, rfl⟩
  | bool b => cases b <;> exact ⟨_, _, rfl, rfl, rfl⟩
  | int i =>
    rw [reprValue]
    exact hword (reprInt_ne_nil i) (fun c => reprInt_chars)
  | float x =>
    rw [reprValue]
    exact hword (floats.nonempty x) (floats.chars x)
  | str a =>
    obtain ⟨quote, hquote, ha⟩ := reprStr_eq py a
    rw [reprValue]
    refine ⟨quote, _, ha, ?_⟩
    rcases hquote with rfl | rfl <;> exact ⟨rfl, rfl⟩
  | arr items => cases items <;> (rw [reprValue]; exact ⟨_, _, rfl, rfl, rfl⟩)
  | obj members => cases members <;> (rw [reprValue]; exact ⟨_, _, rfl, rfl, rfl⟩)

/-- Two texts that agree are of values of one kind. -/
theorem lead_eq {a b : Json} (h : reprValue py floats a ++ s = reprValue py floats b ++ t) :
    a.lead = b.lead := by
  obtain ⟨c, rest, ha, hc, -⟩ := reprValue_lead py floats a
  obtain ⟨d, rest', hb, hd, -⟩ := reprValue_lead py floats b
  rw [ha, hb] at h
  rw [← hc, ← hd, (List.cons.inj h).1]

/-- The values that are numbers. -/
inductive NumberText (floats : FloatText) : Json → List Char → Prop
  | int (i : Int) : NumberText floats (.int i) (reprInt i)
  | float (x : PyFloat) : NumberText floats (.float x) (floats.text x)

theorem NumberText.of_lead (py : Interpreter) (floats : FloatText) {v : Json}
    (h : v.lead = .number) :
    NumberText floats v (reprValue py floats v) := by
  cases v with
  | int i => rw [reprValue]; exact .int i
  | float x => rw [reprValue]; exact .float x
  | bool b => cases b <;> cases h
  | null => cases h
  | str a => cases h
  | arr items => cases h
  | obj members => cases h

theorem NumberText.chars {v : Json} {w : List Char} (h : NumberText floats v w) :
    ∀ c ∈ w, isNumberChar c = true := by
  cases h with
  | int i => exact fun c => reprInt_chars
  | float x => exact floats.chars x

theorem NumberText.inj {a b : Json} {w : List Char} (ha : NumberText floats a w)
    (hb : NumberText floats b w) : a = b := by
  generalize hw : w = w' at hb
  cases ha with
  | int i =>
    cases hb with
    | int j => rw [reprInt_inj hw]
    | float y => exact absurd hw.symm (floats.not_int y i)
  | float x =>
    cases hb with
    | int j => exact absurd hw (floats.not_int x j)
    | float y => rw [floats.injective hw]

/-- What follows the first item of a list, up to its bracket. -/
theorem delimited_reprItems (py : Interpreter) (floats : FloatText) (rest : List Json) :
    Delimited (reprItems py floats rest ++ ']' :: s) := by
  cases rest with
  | nil => exact .cons rfl
  | cons v rest => rw [reprItems]; exact .cons rfl

theorem delimited_reprMembers (py : Interpreter) (floats : FloatText)
    (rest : List (String × Json)) : Delimited (reprMembers py floats rest ++ '}' :: s) := by
  cases rest with
  | nil => exact .cons rfl
  | cons m rest => rw [reprMembers]; exact .cons rfl

/-- No text begins with a separator or a closing bracket. -/
theorem reprValue_ne_delimiter {a : Json} {c : Char} (h : isDelimiter c = true) :
    reprValue py floats a ++ s ≠ c :: t := by
  obtain ⟨d, rest, ha, -, hd⟩ := reprValue_lead py floats a
  intro heq
  rw [ha] at heq
  rw [(List.cons.inj heq).1, h] at hd
  cases hd

theorem eq_of_number {a b : Json} (hs : Delimited s) (ht : Delimited t)
    (ha : a.lead = .number) (hb : b.lead = .number)
    (h : reprValue py floats a ++ s = reprValue py floats b ++ t) : a = b ∧ s = t := by
  have hstop : ∀ {r : List Char}, Delimited r → ∀ c ∈ r.head?, isNumberChar c = false := by
    intro r hr c hc
    have hdelim := hr c hc
    cases hnumber : isNumberChar c with
    | false => rfl
    | true =>
      rw [isDelimiter_of_number hnumber] at hdelim
      cases hdelim
  have hna := NumberText.of_lead py floats ha
  have hnb := NumberText.of_lead py floats hb
  obtain ⟨hword, hst⟩ := append_inj_of_span hna.chars hnb.chars (hstop hs) (hstop ht) h
  exact ⟨hna.inj (hword ▸ hnb), hst⟩

/-- A key begins with its quote. -/
theorem reprMember_ne_brace (py : Interpreter) (floats : FloatText) (m : String × Json) :
    reprMember py floats m ++ s ≠ '}' :: t := by
  obtain ⟨key, v⟩ := m
  obtain ⟨quote, hquote, hkey⟩ := reprStr_eq py key
  intro h
  rw [reprMember, hkey, List.append_assoc, List.append_assoc, List.cons_append] at h
  have hbrace := (List.cons.inj h).1
  rcases hquote with rfl | rfl <;> exact absurd hbrace (by decide)

/-- A value's text is no other value's, and shows where it ends. -/
def SpelledApart (py : Interpreter) (floats : FloatText) (a : Json) : Prop :=
  ∀ (b : Json) {s t : List Char}, Delimited s → Delimited t →
    reprValue py floats a ++ s = reprValue py floats b ++ t → a = b ∧ s = t

/-- The items of a list after the first, up to its bracket. -/
theorem reprItems_append_inj {as bs : List Json} (has : ∀ v ∈ as, SpelledApart py floats v)
    (h : reprItems py floats as ++ ']' :: s = reprItems py floats bs ++ ']' :: t) :
    as = bs ∧ s = t := by
  induction as generalizing bs with
  | nil =>
    cases bs with
    | nil => exact ⟨rfl, (List.cons.inj h).2⟩
    | cons w bs =>
      rw [reprItems, reprItems] at h
      exact absurd (List.cons.inj h).1 (by decide)
  | cons v as ih =>
    cases bs with
    | nil =>
      rw [reprItems, reprItems] at h
      exact absurd (List.cons.inj h).1 (by decide)
    | cons w bs =>
      obtain ⟨hv, has⟩ := List.forall_mem_cons.mp has
      rw [reprItems, reprItems] at h
      simp only [List.cons_append, List.append_assoc, List.nil_append] at h
      obtain ⟨rfl, hrest⟩ := hv w (delimited_reprItems py floats as)
        (delimited_reprItems py floats bs) (List.cons.inj (List.cons.inj h).2).2
      obtain ⟨rfl, hst⟩ := ih has hrest
      exact ⟨rfl, hst⟩

theorem reprMember_append_inj {m n : String × Json} (hm : SpelledApart py floats m.2)
    (hs : Delimited s) (ht : Delimited t)
    (h : reprMember py floats m ++ s = reprMember py floats n ++ t) : m = n ∧ s = t := by
  obtain ⟨key, v⟩ := m
  obtain ⟨key', w⟩ := n
  rw [reprMember, reprMember] at h
  simp only [List.append_assoc] at h
  obtain ⟨rfl, hvalue⟩ := reprStr_append_inj h
  obtain ⟨hvw, hst⟩ := hm w hs ht (List.append_cancel_left hvalue)
  exact ⟨Prod.ext rfl hvw, hst⟩

/-- The members of a dictionary after the first, up to its brace. -/
theorem reprMembers_append_inj {ms ns : List (String × Json)}
    (hms : ∀ m ∈ ms, SpelledApart py floats m.2)
    (h : reprMembers py floats ms ++ '}' :: s = reprMembers py floats ns ++ '}' :: t) :
    ms = ns ∧ s = t := by
  induction ms generalizing ns with
  | nil =>
    cases ns with
    | nil => exact ⟨rfl, (List.cons.inj h).2⟩
    | cons n ns =>
      rw [reprMembers, reprMembers] at h
      exact absurd (List.cons.inj h).1 (by decide)
  | cons m ms ih =>
    cases ns with
    | nil =>
      rw [reprMembers, reprMembers] at h
      exact absurd (List.cons.inj h).1 (by decide)
    | cons n ns =>
      obtain ⟨hm, hms⟩ := List.forall_mem_cons.mp hms
      rw [reprMembers, reprMembers] at h
      simp only [List.cons_append, List.append_assoc, List.nil_append] at h
      obtain ⟨rfl, hrest⟩ := reprMember_append_inj hm (delimited_reprMembers py floats ms)
        (delimited_reprMembers py floats ns) (List.cons.inj (List.cons.inj h).2).2
      obtain ⟨rfl, hst⟩ := ih hms hrest
      exact ⟨rfl, hst⟩

/-! ## Kinds of values -/

theorem SpelledApart.arr {as : List Json} (has : ∀ v ∈ as, SpelledApart py floats v) :
    SpelledApart py floats (.arr as) := by
  intro b s t _ _ h
  obtain ⟨bs, rfl⟩ := Json.eq_arr_of_lead (lead_eq h).symm
  cases as with
  | nil =>
    cases bs with
    | nil =>
      rw [reprValue] at h
      exact ⟨rfl, List.append_cancel_left h⟩
    | cons w bs =>
      rw [reprValue, reprValue] at h
      simp only [List.cons_append, List.append_assoc, List.nil_append] at h
      exact absurd (List.cons.inj h).2.symm (reprValue_ne_delimiter rfl)
  | cons v as =>
    cases bs with
    | nil =>
      rw [reprValue, reprValue] at h
      simp only [List.cons_append, List.append_assoc, List.nil_append] at h
      exact absurd (List.cons.inj h).2 (reprValue_ne_delimiter rfl)
    | cons w bs =>
      obtain ⟨hv, has⟩ := List.forall_mem_cons.mp has
      rw [reprValue, reprValue] at h
      simp only [List.cons_append, List.append_assoc, List.nil_append] at h
      obtain ⟨rfl, hrest⟩ := hv w (delimited_reprItems py floats as)
        (delimited_reprItems py floats bs) (List.cons.inj h).2
      obtain ⟨rfl, hst⟩ := reprItems_append_inj has hrest
      exact ⟨rfl, hst⟩

theorem SpelledApart.obj {ms : List (String × Json)}
    (hms : ∀ m ∈ ms, SpelledApart py floats m.2) : SpelledApart py floats (.obj ms) := by
  intro b s t _ _ h
  obtain ⟨ns, rfl⟩ := Json.eq_obj_of_lead (lead_eq h).symm
  cases ms with
  | nil =>
    cases ns with
    | nil =>
      rw [reprValue] at h
      exact ⟨rfl, List.append_cancel_left h⟩
    | cons n ns =>
      rw [reprValue, reprValue] at h
      simp only [List.cons_append, List.append_assoc, List.nil_append] at h
      exact absurd (List.cons.inj h).2.symm (reprMember_ne_brace py floats n)
  | cons m ms =>
    cases ns with
    | nil =>
      rw [reprValue, reprValue] at h
      simp only [List.cons_append, List.append_assoc, List.nil_append] at h
      exact absurd (List.cons.inj h).2 (reprMember_ne_brace py floats m)
    | cons n ns =>
      obtain ⟨hm, hms⟩ := List.forall_mem_cons.mp hms
      rw [reprValue, reprValue] at h
      simp only [List.cons_append, List.append_assoc, List.nil_append] at h
      obtain ⟨rfl, hrest⟩ := reprMember_append_inj hm (delimited_reprMembers py floats ms)
        (delimited_reprMembers py floats ns) (List.cons.inj h).2
      obtain ⟨rfl, hst⟩ := reprMembers_append_inj hms hrest
      exact ⟨rfl, hst⟩

/-- **A text spells one value**, and shows where it ends. -/
theorem reprValue_append_inj (py : Interpreter) (floats : FloatText) (a : Json) :
    SpelledApart py floats a := by
  induction a using Json.nested with
  | null =>
    intro b s t _ _ h
    obtain rfl := Json.eq_null_of_lead (lead_eq h).symm
    exact ⟨rfl, List.append_cancel_left h⟩
  | bool x =>
    intro b s t _ _ h
    obtain rfl := Json.eq_bool_of_lead (lead_eq h).symm
    exact ⟨rfl, List.append_cancel_left h⟩
  | int i => exact fun b _ _ hs ht h => eq_of_number hs ht rfl (lead_eq h).symm h
  | float x => exact fun b _ _ hs ht h => eq_of_number hs ht rfl (lead_eq h).symm h
  | str x =>
    intro b s t _ _ h
    obtain ⟨y, rfl⟩ := Json.eq_str_of_lead (lead_eq h).symm
    rw [reprValue, reprValue] at h
    obtain ⟨rfl, hst⟩ := reprStr_append_inj h
    exact ⟨rfl, hst⟩
  | arr items ih => exact .arr ih
  | obj members ih => exact .obj ih

/-! ## str of a value -/

/-- The text is `str` of the value, which is no text itself. -/
def Names (py : Interpreter) (floats : FloatText) (a b : Json) : Prop :=
  ∃ text, a = .str text ∧ b.lead ≠ .text ∧ text.toList = reprValue py floats b

theorem strValue_of_lead {v : Json} (h : v.lead ≠ .text) :
    strValue py floats v = reprValue py floats v := by
  cases v with
  | str text => exact absurd rfl h
  | _ => rfl

theorem reprValue_inj {a b : Json} (h : reprValue py floats a = reprValue py floats b) : a = b := by
  refine (reprValue_append_inj py floats a b .nil .nil ?_).1
  rw [h]

/-- **`str` keeps texts apart, and keeps the other values apart**: it takes a text to what it takes
another value to only where the text spells the value. -/
theorem strValue_eq_iff {a b : Json} : strValue py floats a = strValue py floats b ↔
    a = b ∨ Names py floats a b ∨ Names py floats b a := by
  constructor
  · intro h
    by_cases ha : a.lead = .text
    · obtain ⟨text, rfl⟩ := Json.eq_str_of_lead ha
      by_cases hb : b.lead = .text
      · obtain ⟨text', rfl⟩ := Json.eq_str_of_lead hb
        exact .inl (congrArg _ (String.toList_inj.mp h))
      · rw [strValue_of_lead hb] at h
        exact .inr (.inl ⟨text, rfl, hb, h⟩)
    · rw [strValue_of_lead ha] at h
      by_cases hb : b.lead = .text
      · obtain ⟨text, rfl⟩ := Json.eq_str_of_lead hb
        exact .inr (.inr ⟨text, rfl, ha, h.symm⟩)
      · rw [strValue_of_lead hb] at h
        exact .inl (reprValue_inj h)
  · rintro (rfl | ⟨text, rfl, hb, htext⟩ | ⟨text, rfl, ha, htext⟩)
    · rfl
    · rw [strValue_of_lead hb]
      exact htext
    · rw [strValue_of_lead ha]
      exact htext.symm

end Values

/-! ## A text of floats -/

/-- The text of whole numbers below 10^16; other fractions are written by numerator and
denominator. -/
def wholeFloat : PyFloat → List Char
  | .finite q => reprInt q.num ++ '.' :: Nat.toDigits 10 (q.den - 1)
  | .negZero => ['-', '0', '.', '0']
  | .inf false => ['i', 'n', 'f']
  | .inf true => ['-', 'i', 'n', 'f']
  | .nan => ['n', 'a', 'n']

theorem reprInt_ne_letter {i : Int} {c : Char} (hdigit : c.isDigit = false) (hsign : c ≠ '-') :
    c ∉ reprInt i := by
  have hout : ∀ {n : Nat}, c ∉ Nat.toDigits 10 n := by
    intro n hc
    rw [isDigit_of_toDigits hc] at hdigit
    cases hdigit
  cases i with
  | ofNat n => exact hout
  | negSucc n => exact fun hc => (List.mem_cons.mp hc).elim hsign hout

/-- A finite text is split at its point. -/
theorem wholeFloat_finite_split {q : ℚ} {before rest : List Char}
    (hbefore : ∀ c ∈ before, (c != '.') = true)
    (h : wholeFloat (.finite q) = before ++ '.' :: rest) :
    reprInt q.num = before ∧ Nat.toDigits 10 (q.den - 1) = rest := by
  have hpoint : ∀ c ∈ reprInt q.num, (c != '.') = true := by
    rintro c hc
    rw [bne_iff_ne]
    rintro rfl
    exact reprInt_ne_letter (by decide) (by decide) hc
  have hstop : ∀ (cs : List Char), ∀ c ∈ ('.' :: cs).head?, (c != '.') = false := by
    intro cs c hc
    cases hc
    rfl
  obtain ⟨hnum, hden⟩ := append_inj_of_span hpoint hbefore (hstop _) (hstop _) h
  exact ⟨hnum, (List.cons.inj hden).2⟩

theorem wholeFloat_finite_inj {q r : ℚ} (h : wholeFloat (.finite q) = wholeFloat (.finite r)) :
    q = r := by
  have hpoint : ∀ c ∈ reprInt r.num, (c != '.') = true := by
    rintro c hc
    rw [bne_iff_ne]
    rintro rfl
    exact reprInt_ne_letter (by decide) (by decide) hc
  obtain ⟨hnum, hden⟩ := wholeFloat_finite_split hpoint h
  have hdigits := toDigits_inj hden
  refine Rat.ext (reprInt_inj hnum) ?_
  have hq := q.den_pos
  have hr := r.den_pos
  omega

/-- No integer is written as a zero with a sign. -/
theorem reprInt_ne_signedZero (i : Int) : reprInt i ≠ ['-', '0'] := by
  intro h
  cases i with
  | ofNat n =>
    have hdigit : Char.isDigit '-' = true :=
      isDigit_of_toDigits (n := n) ((show Nat.toDigits 10 n = ['-', '0'] from h) ▸ List.mem_cons_self)
    exact absurd hdigit (by decide)
  | negSucc n =>
    have hzero : Nat.toDigits 10 (n + 1) = Nat.toDigits 10 0 := (List.cons.inj h).2
    exact absurd (toDigits_inj hzero) (Nat.succ_ne_zero n)

theorem wholeFloat_finite_ne_negZero (q : ℚ) : wholeFloat (.finite q) ≠ wholeFloat .negZero := by
  intro h
  have htext : wholeFloat (.finite q) = ['-', '0'] ++ '.' :: ['0'] := h
  have hbefore : ∀ c ∈ ['-', '0'], (c != '.') = true := by simp
  exact reprInt_ne_signedZero q.num (wholeFloat_finite_split hbefore htext).1

/-- The texts of numbers have a point. -/
theorem point_mem_wholeFloat {x : PyFloat} :
    '.' ∈ wholeFloat x ↔ (∃ q, x = .finite q) ∨ x = .negZero := by
  cases x with
  | finite q =>
    exact ⟨fun _ => .inl ⟨q, rfl⟩, fun _ => List.mem_append_right _ List.mem_cons_self⟩
  | negZero => simp [wholeFloat]
  | inf negative => cases negative <;> simp [wholeFloat]
  | nan => simp [wholeFloat]

/-- An interpreter that prints ASCII and iterates a set in the order it was filled. -/
def asciiInterpreter : Interpreter where
  isPrintable c := c.toNat < 0x7f
  setOrder xs := xs
  setOrder_perm xs _ := .refl xs

/-- A text of floats with the laws of `FloatText`. -/
def wholeFloats : FloatText where
  text := wholeFloat
  injective := by
    intro x y h
    cases x with
    | finite q =>
      rcases point_mem_wholeFloat.mp (h ▸ point_mem_wholeFloat.mpr (.inl ⟨q, rfl⟩)) with
        ⟨r, rfl⟩ | rfl
      · rw [wholeFloat_finite_inj h]
      · exact absurd h (wholeFloat_finite_ne_negZero q)
    | negZero =>
      rcases point_mem_wholeFloat.mp (h ▸ point_mem_wholeFloat.mpr (.inr rfl)) with ⟨r, rfl⟩ | rfl
      · exact absurd h.symm (wholeFloat_finite_ne_negZero r)
      · rfl
    | inf negative =>
      cases y with
      | finite r =>
        rcases point_mem_wholeFloat.mp (h ▸ point_mem_wholeFloat.mpr (.inl ⟨r, rfl⟩)) with
          ⟨_, hr⟩ | hr <;> cases hr
      | inf negative' => cases negative <;> cases negative' <;> first | rfl | cases h
      | negZero => cases negative <;> cases h
      | nan => cases negative <;> cases h
    | nan =>
      cases y with
      | finite r =>
        rcases point_mem_wholeFloat.mp (h ▸ point_mem_wholeFloat.mpr (.inl ⟨r, rfl⟩)) with
          ⟨_, hr⟩ | hr <;> cases hr
      | inf negative => cases negative <;> cases h
      | negZero => cases h
      | nan => rfl
  nonempty := by
    intro x
    cases x with
    | finite q => exact List.append_ne_nil_of_right_ne_nil _ (List.cons_ne_nil _ _)
    | negZero => exact List.cons_ne_nil _ _
    | inf negative => cases negative <;> exact List.cons_ne_nil _ _
    | nan => exact List.cons_ne_nil _ _
  chars := by
    intro x c hc
    cases x with
    | finite q =>
      rcases List.mem_append.mp hc with hc | hc
      · exact reprInt_chars hc
      · rcases List.mem_cons.mp hc with rfl | hc
        · decide
        · rw [isNumberChar, isDigit_of_toDigits hc, Bool.true_or]
    | negZero =>
      have hall : (wholeFloat .negZero).all isNumberChar = true := rfl
      exact List.all_eq_true.mp hall c hc
    | inf negative =>
      have hall : (wholeFloat (.inf negative)).all isNumberChar = true := by
        cases negative <;> rfl
      exact List.all_eq_true.mp hall c hc
    | nan =>
      have hall : (wholeFloat .nan).all isNumberChar = true := rfl
      exact List.all_eq_true.mp hall c hc
  not_int := by
    intro x i h
    cases x with
    | finite q =>
      have hmem : '.' ∈ reprInt i := h ▸ point_mem_wholeFloat.mpr (.inl ⟨q, rfl⟩)
      exact reprInt_ne_letter (by decide) (by decide) hmem
    | negZero =>
      have hmem : '.' ∈ reprInt i := h ▸ point_mem_wholeFloat.mpr (.inr rfl)
      exact reprInt_ne_letter (by decide) (by decide) hmem
    | inf negative =>
      have hmem : 'i' ∈ reprInt i := by
        rw [← h]
        cases negative <;> decide
      exact reprInt_ne_letter (by decide) (by decide) hmem
    | nan =>
      have hmem : 'n' ∈ reprInt i := by
        rw [← h]
        decide
      exact reprInt_ne_letter (by decide) (by decide) hmem

end ClawEngine.Core
