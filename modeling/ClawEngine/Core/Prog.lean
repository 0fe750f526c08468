import Mathlib.Tactic.Common

/-!
# Programs over an interface of operations

A piece of effectful code is a `Prog`: it either has its outcome or asks one operation of its
interface and goes on with the answer. What an operation does is left to a **handler**, so one
program has several readings: `Prog.run` performs it alone, one operation after the other, and
`Core/Pool.lean` interleaves many programs, one operation at a time. Facts about the code are
proved of the program once and hold of both readings.

A handler acts on a shared state. Exceptions are answers: an operation that may raise is answered
by an `Except`, and `Prog.call` is the ordinary statement, which leaves the program with the
exception the operation raised.
-/

set_option autoImplicit false

namespace ClawEngine.Core

universe u v

/-- A program over the operations `Op`, each answered in `Ans op`, with outcome in `A`. -/
inductive Prog (Op : Type u) (Ans : Op → Type v) (A : Type v) : Type (max u v)
  | ret : A → Prog Op Ans A
  | vis : (op : Op) → (Ans op → Prog Op Ans A) → Prog Op Ans A

/-- What the operations do to a shared state. -/
abbrev Handler (Op : Type u) (Ans : Op → Type v) (σ : Type v) : Type (max u v) :=
  (op : Op) → σ → Ans op × σ

namespace Prog

variable {Op : Type u} {Ans : Op → Type v} {A B σ : Type v}

/-- The program performed alone. -/
def run (H : Handler Op Ans σ) : Prog Op Ans A → σ → A × σ
  | .ret a, s => (a, s)
  | .vis op k, s => run H (k (H op s).1) (H op s).2

@[simp] theorem run_ret (H : Handler Op Ans σ) (a : A) (s : σ) :
    run H (.ret a : Prog Op Ans A) s = (a, s) := rfl

@[simp] theorem run_vis (H : Handler Op Ans σ) (op : Op) (k : Ans op → Prog Op Ans A) (s : σ) :
    run H (.vis op k) s = run H (k (H op s).1) (H op s).2 := rfl

/-- The outcome of a program that asks nothing more. -/
def outcome? : Prog Op Ans A → Option A
  | .ret a => some a
  | .vis _ _ => none

@[simp] theorem outcome?_ret (a : A) : (ret a : Prog Op Ans A).outcome? = some a := rfl

@[simp] theorem outcome?_vis (op : Op) (k : Ans op → Prog Op Ans A) :
    (vis op k).outcome? = none := rfl

theorem outcome?_eq_some {p : Prog Op Ans A} {a : A} : p.outcome? = some a ↔ p = ret a := by
  cases p with
  | ret b => simp only [outcome?_ret, Option.some.injEq, ret.injEq]
  | vis op k => simp only [outcome?_vis, reduceCtorEq]

/-! ## What a program may be seen to do -/

/-- An operation with its answer. -/
abbrev Answered (Op : Type u) (Ans : Op → Type v) : Type (max u v) := (op : Op) × Ans op

/-- `p.Leads l q`: answered as `l` says, `p` performs the operations of `l` and goes on as `q`. -/
inductive Leads : Prog Op Ans A → List (Answered Op Ans) → Prog Op Ans A → Prop
  | refl (p : Prog Op Ans A) : Leads p [] p
  | step {op : Op} {k : Ans op → Prog Op Ans A} {a : Ans op} {l : List (Answered Op Ans)}
      {q : Prog Op Ans A} (rest : Leads (k a) l q) : Leads (.vis op k) (⟨op, a⟩ :: l) q

theorem Leads.of_nil {p q : Prog Op Ans A} (h : p.Leads [] q) : q = p := by
  cases h
  rfl

theorem Leads.of_ret {a : A} {l : List (Answered Op Ans)} {q : Prog Op Ans A}
    (h : (ret a : Prog Op Ans A).Leads l q) : l = [] ∧ q = .ret a := by
  cases h
  exact ⟨rfl, rfl⟩

theorem Leads.snoc {p : Prog Op Ans A} {l : List (Answered Op Ans)} {op : Op}
    {k : Ans op → Prog Op Ans A} (h : p.Leads l (.vis op k)) (a : Ans op) :
    p.Leads (l ++ [⟨op, a⟩]) (k a) := by
  generalize hq : Prog.vis op k = q at h
  induction h with
  | refl p => subst hq; exact .step (.refl _)
  | step _ ih => exact .step (ih hq)

/-- A program that performed a list performed every prefix of it. -/
theorem Leads.split {p q : Prog Op Ans A} {l₁ l₂ : List (Answered Op Ans)}
    (h : p.Leads (l₁ ++ l₂) q) : ∃ r, p.Leads l₁ r ∧ r.Leads l₂ q := by
  induction l₁ generalizing p with
  | nil => exact ⟨p, .refl p, h⟩
  | cons o l ih =>
    cases h with
    | step rest =>
      obtain ⟨r, h₁, h₂⟩ := ih rest
      exact ⟨r, .step h₁, h₂⟩

/-- Every operation the program may perform is a `P`. -/
inductive Only (P : Op → Prop) : Prog Op Ans A → Prop
  | ret (a : A) : Only P (.ret a)
  | vis {op : Op} {k : Ans op → Prog Op Ans A} (head : P op) (rest : ∀ a, Only P (k a)) :
    Only P (.vis op k)

/-- What every operation that it may perform keeps, the program keeps. -/
theorem Only.run_keeps {P : Op → Prop} {I : σ → Prop} {p : Prog Op Ans A} (h : Only P p)
    (H : Handler Op Ans σ) (hkeeps : ∀ op s, P op → I s → I (H op s).2) {s : σ} (hs : I s) :
    I (run H p s).2 := by
  induction h generalizing s with
  | ret a => exact hs
  | vis head rest ih => exact ih _ (hkeeps _ _ head hs)

/-- What every operation keeps, the program keeps. -/
theorem run_keeps {I : σ → Prop} (H : Handler Op Ans σ) (hkeeps : ∀ op s, I s → I (H op s).2)
    (p : Prog Op Ans A) {s : σ} (hs : I s) : I (run H p s).2 := by
  induction p generalizing s with
  | ret a => exact hs
  | vis op k ih => exact ih _ (hkeeps op s hs)

/-- The program has its outcome after at most `n` operations, however they are answered. -/
inductive Ends : Nat → Prog Op Ans A → Prop
  | ret (n : Nat) (a : A) : Ends n (.ret a)
  | vis {n : Nat} {op : Op} {k : Ans op → Prog Op Ans A} (rest : ∀ a, Ends n (k a)) :
    Ends (n + 1) (.vis op k)

theorem Ends.outcome {n : Nat} {p q : Prog Op Ans A} {l : List (Answered Op Ans)} (h : Ends n p)
    (hl : p.Leads l q) (hn : n ≤ l.length) : ∃ a, q = .ret a := by
  induction h generalizing l with
  | ret n a =>
    exact ⟨a, hl.of_ret.2⟩
  | vis _ ih =>
    cases hl with
    | refl => exact absurd hn (Nat.not_succ_le_zero _)
    | step rest => exact ih _ rest (Nat.le_of_succ_le_succ hn)

end Prog

/-! ## Operations that may raise -/

section Raising

variable {Op : Type u} {ε : Type v} {R : Op → Type v} {A σ : Type v}

/-- Programs whose operations and whose outcome may be an exception. -/
abbrev ProgE (Op : Type u) (R : Op → Type v) (ε A : Type v) : Type (max u v) :=
  Prog Op (fun op => Except ε (R op)) (Except ε A)

/-- A statement outside every `try`: an exception raised by the operation leaves the program. -/
def Prog.call (op : Op) (k : R op → ProgE Op R ε A) : ProgE Op R ε A :=
  .vis op fun
    | .error e => .ret (.error e)
    | .ok r => k r

/-- `raise e`. -/
def Prog.raise (e : ε) : ProgE Op R ε A := .ret (.error e)

theorem Prog.Ends.call {n : Nat} {op : Op} {k : R op → ProgE Op R ε A}
    (h : ∀ r, Prog.Ends n (k r)) : Prog.Ends (n + 1) (Prog.call op k) := by
  refine .vis fun answer => ?_
  cases answer with
  | error e => exact .ret n _
  | ok r => exact h r

theorem Prog.run_call_error {H : Handler Op (fun op => Except ε (R op)) σ} {op : Op} {s s' : σ}
    {e : ε} (h : H op s = (.error e, s')) (k : R op → ProgE Op R ε A) :
    Prog.run H (Prog.call op k) s = (.error e, s') := by
  simp only [Prog.call, Prog.run_vis, h, Prog.run_ret]

theorem Prog.run_call_ok {H : Handler Op (fun op => Except ε (R op)) σ} {op : Op} {s s' : σ}
    {r : R op} (h : H op s = (.ok r, s')) (k : R op → ProgE Op R ε A) :
    Prog.run H (Prog.call op k) s = Prog.run H (k r) s' := by
  simp only [Prog.call, Prog.run_vis, h]

end Raising

end ClawEngine.Core
