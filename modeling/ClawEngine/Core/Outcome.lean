import Mathlib.Tactic.Common

/-!
# Outcomes of fallible code

Two outcomes are related when both are the same exception, or both are values that a relation
holds of. A sequence of statements keeps outcomes related when each statement does.

`Ends Q P` says of one outcome that its exception satisfies `Q` or its value `P`; of a sequence it
says the same of the first statement, with what it says of the rest for `P`.
-/

set_option autoImplicit false

namespace ClawEngine.Core

universe u

variable {ε : Type u} {A B : Type u}

/-- Both end in the same exception, or both return and their values are related. -/
def SameOutcome (R : A → A → Prop) : Except ε A → Except ε A → Prop
  | .ok a, .ok b => R a b
  | .error x, .error y => x = y
  | _, _ => False

namespace SameOutcome

variable {R : A → A → Prop} {Q : B → B → Prop} {x y : Except ε A}

theorem bind {f g : A → Except ε B} (h : SameOutcome R x y)
    (hf : ∀ a b, R a b → SameOutcome Q (f a) (g b)) : SameOutcome Q (x >>= f) (y >>= g) := by
  cases x with
  | error e =>
    cases y with
    | error e' => exact h
    | ok b => exact h.elim
  | ok a =>
    cases y with
    | error e' => exact h.elim
    | ok b => exact hf a b h

/-- The same statement before two continuations. -/
theorem bind_same {f g : A → Except ε B} (x : Except ε A)
    (hf : ∀ a, SameOutcome Q (f a) (g a)) : SameOutcome Q (x >>= f) (x >>= g) := by
  cases x with
  | error e => exact (rfl : e = e)
  | ok a => exact hf a

end SameOutcome

/-- Two runs that answer the same and leave related states. -/
def SameAnswer {A S : Type u} (R : S → S → Prop) (x y : A × S) : Prop := x.1 = y.1 ∧ R x.2 y.2

/-- The exception satisfies `Q`, or the value `P`. -/
def Ends (Q : ε → Prop) (P : A → Prop) : Except ε A → Prop
  | .error e => Q e
  | .ok a => P a

section Ends

variable {Q : ε → Prop} {P : B → Prop}

@[simp] theorem ends_ok {b : B} : Ends Q P (.ok b) ↔ P b := Iff.rfl

@[simp] theorem ends_error {e : ε} : Ends Q P (.error e) ↔ Q e := Iff.rfl

theorem ends_bind_iff {x : Except ε A} {f : A → Except ε B} :
    Ends Q P (x >>= f) ↔ Ends Q (fun a => Ends Q P (f a)) x := by
  cases x with
  | error e => exact Iff.rfl
  | ok a => exact Iff.rfl

end Ends

/-- What a sequence of two returned. -/
theorem except_bind_eq_ok {ε A B : Type} {x : Except ε A} {f : A → Except ε B} {b : B} :
    (x >>= f) = .ok b ↔ ∃ a, x = .ok a ∧ f a = .ok b := by
  cases x with
  | error e =>
    constructor
    · intro h
      cases h
    · rintro ⟨a, h, -⟩
      cases h
  | ok a =>
    constructor
    · intro h
      exact ⟨a, rfl, h⟩
    · rintro ⟨_, h, hf⟩
      cases h
      exact hf

theorem map_eq_ok {ε A B : Type} {x : Except ε A} {f : A → B} {b : B} :
    x.map f = .ok b ↔ ∃ a, x = .ok a ∧ f a = b := by
  cases x with
  | error e => simp only [Except.map, reduceCtorEq, false_and, exists_false]
  | ok a => simp only [Except.map, Except.ok.injEq, exists_eq_left']

/-- An exception under another name is an exception. -/
theorem except_mapError_eq_ok {E F A : Type} {x : Except E A} {f : E → F} {a : A} :
    x.mapError f = .ok a ↔ x = .ok a := by
  cases x with
  | error e => simp only [Except.mapError, reduceCtorEq]
  | ok b => simp only [Except.mapError, Except.ok.injEq]

/-- An outcome that has a value is that value. -/
theorem eq_ok_of_toOption {E A : Type} {x : Except E A} {a : A} (h : x.toOption = some a) :
    x = .ok a := by
  cases x with
  | error e => cases h
  | ok b => exact congrArg _ (Option.some.inj h)

end ClawEngine.Core
