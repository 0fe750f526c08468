import Mathlib.Tactic.Common

/-!
# Options of a command line

How a command reads the words of its argv: a word that starts with a dash is an option, the word
after an option that takes a value is its value, and after `--` no word is an option. The reading
goes from left to right, and what was read before a word acts on it through one of three states.
-/

set_option autoImplicit false

namespace ClawEngine.Core.Argv

/-- What the next word is read as. -/
inductive Reading
  | word | value | operand
  deriving DecidableEq, Repr

/-- Whether a word starts with a dash. -/
def isDashed (w : String) : Bool := w.toList.head? = some '-'

variable (takesValue : String → Bool)

/-- What a word leaves the next one to be read as. -/
def Reading.next : Reading → String → Reading
  | .word, w => if w = "--" then .operand else if takesValue w then .value else .word
  | .value, _ => .word
  | .operand, _ => .operand

/-- The word, where it counts as an option. -/
def Reading.option : Reading → String → List String
  | .word, w => if isDashed w then [w] else []
  | .value, _ => []
  | .operand, _ => []

/-- The options among the words, the first of them read as `r`. -/
def optionsFrom : Reading → List String → List String
  | _, [] => []
  | r, w :: ws => r.option w ++ optionsFrom (r.next takesValue w) ws

/-- What the words leave the next one to be read as. -/
def readingAfter : Reading → List String → Reading
  | r, [] => r
  | r, w :: ws => readingAfter (r.next takesValue w) ws

/-- The options of an argv. -/
def options (argv : List String) : List String := optionsFrom takesValue .word argv

variable {takesValue}

theorem optionsFrom_append (r : Reading) (xs ys : List String) :
    optionsFrom takesValue r (xs ++ ys) =
      optionsFrom takesValue r xs ++ optionsFrom takesValue (readingAfter takesValue r xs) ys := by
  induction xs generalizing r with
  | nil => rfl
  | cons w ws ih =>
    rw [List.cons_append, optionsFrom, optionsFrom, ih, List.append_assoc]
    rfl

theorem readingAfter_append (r : Reading) (xs ys : List String) :
    readingAfter takesValue r (xs ++ ys) =
      readingAfter takesValue (readingAfter takesValue r xs) ys := by
  induction xs generalizing r with
  | nil => rfl
  | cons w ws ih => exact ih _

/-- After `--` no word is an option. -/
theorem optionsFrom_operand (ws : List String) : optionsFrom takesValue .operand ws = [] := by
  induction ws with
  | nil => rfl
  | cons w ws ih => exact ih

/-! ## Plain words -/

/-- A word that is no option wherever it stands. -/
structure Plain (takesValue : String → Bool) (w : String) : Prop where
  undashed : isDashed w = false
  valueless : takesValue w = false

theorem Plain.ne_dashes {w : String} (h : Plain takesValue w) : w ≠ "--" := by
  rintro rfl
  exact absurd h.undashed (by decide)

/-- Where every option that takes a value starts with a dash, a word without a dash is plain. -/
theorem plain_of_undashed (htakes : ∀ w, takesValue w = true → isDashed w = true) {w : String}
    (h : isDashed w = false) : Plain takesValue w where
  undashed := h
  valueless := by
    rw [← Bool.not_eq_true]
    intro hw
    rw [htakes w hw] at h
    cases h

theorem Plain.option {w : String} (h : Plain takesValue w) (r : Reading) : r.option w = [] := by
  cases r with
  | word => exact if_neg (by rw [h.undashed]; exact Bool.false_ne_true)
  | value => rfl
  | operand => rfl

theorem Plain.next_word {w : String} (h : Plain takesValue w) :
    Reading.next takesValue .word w = .word := by
  rw [Reading.next, if_neg h.ne_dashes, h.valueless]
  rfl

/-- Two plain words leave the next word to be read alike. -/
theorem Plain.next_eq {v w : String} (hv : Plain takesValue v) (hw : Plain takesValue w)
    (r : Reading) : r.next takesValue v = r.next takesValue w := by
  cases r with
  | word => rw [hv.next_word, hw.next_word]
  | value => rfl
  | operand => rfl

/-- **A plain word in place of a plain word** leaves the options as they are. -/
theorem optionsFrom_replace {v w : String} (hv : Plain takesValue v) (hw : Plain takesValue w)
    (r : Reading) (xs ys : List String) :
    optionsFrom takesValue r (xs ++ v :: ys) = optionsFrom takesValue r (xs ++ w :: ys) := by
  rw [optionsFrom_append, optionsFrom_append, optionsFrom, optionsFrom, hv.option, hw.option,
    hv.next_eq hw]

/-- Plain words are passed over, where no value is awaited. -/
theorem optionsFrom_plains {ws : List String} (h : ∀ w ∈ ws, Plain takesValue w)
    (ys : List String) {r : Reading} (hr : r ≠ .value) :
    optionsFrom takesValue r (ws ++ ys) = optionsFrom takesValue r ys := by
  induction ws with
  | nil => rfl
  | cons w ws ih =>
    have hw := h w List.mem_cons_self
    have hnext : r.next takesValue w = r := by
      cases r with
      | word => exact hw.next_word
      | value => exact absurd rfl hr
      | operand => rfl
    rw [List.cons_append, optionsFrom, hw.option, List.nil_append, hnext]
    exact ih fun w' hw' => h w' (List.mem_cons_of_mem _ hw')

/-- **A value is no option**: an option with its value counts as the option alone. -/
theorem optionsFrom_valued {o : String} (ho : takesValue o = true) (hdashes : o ≠ "--")
    (v : String) (ys : List String) {r : Reading} (hr : r ≠ .value) :
    optionsFrom takesValue r (o :: v :: ys) = r.option o ++ optionsFrom takesValue r ys := by
  cases r with
  | word =>
    have hnext : Reading.next takesValue .word o = .value := by
      rw [Reading.next, if_neg hdashes, if_pos ho]
    rw [optionsFrom, optionsFrom, hnext]
    rfl
  | value => exact absurd rfl hr
  | operand => rw [optionsFrom_operand, optionsFrom_operand]; rfl

/-- After a word that takes no value, none is awaited. -/
theorem readingAfter_concat_ne_value {w : String} (hw : takesValue w = false) (r : Reading)
    (xs : List String) : readingAfter takesValue r (xs ++ [w]) ≠ .value := by
  rw [readingAfter_append, readingAfter, readingAfter]
  cases readingAfter takesValue r xs with
  | word =>
    rw [Reading.next, hw]
    split <;> exact nofun
  | value => exact nofun
  | operand => exact nofun

end ClawEngine.Core.Argv
