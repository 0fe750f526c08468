import ClawEngine.Core.Prog
import Mathlib.Logic.Function.Basic
import Mathlib.Data.List.Induction

/-!
# Interleaving

A **pool** is a family of programs over one shared state. A schedule names, step after step, the
program that performs its next operation; an operation is atomic, and between two operations of
one program any number of operations of the others may run. The pool keeps a log of the operations
performed with their answers, oldest first, so that an order of events is a fact about a list.

`Pool.run_induct` is the invariant rule: what the start satisfies and every performed operation
keeps, every reachable pool satisfies. A step of a program that has its outcome changes nothing,
so the rule only asks about performed operations.
-/

set_option autoImplicit false

namespace ClawEngine.Core

universe u v

/-- One operation performed by a program, with its answer. -/
structure Event (ι : Type u) (Op : Type u) (Ans : Op → Type v) where
  thread : ι
  op : Op
  ans : Ans op

/-- Programs running over one shared state. -/
structure Pool (ι Op : Type u) (Ans : Op → Type v) (A σ : Type v) where
  shared : σ
  threads : ι → Prog Op Ans A
  log : List (Event ι Op Ans)

namespace Pool

variable {ι Op : Type u} {Ans : Op → Type v} {A σ : Type v} [DecidableEq ι]

/-- All programs before their first operation. -/
def start (s : σ) (threads : ι → Prog Op Ans A) : Pool ι Op Ans A σ :=
  { shared := s, threads := threads, log := [] }

/-- The pool after program `i` performed `op` and was answered as the handler answers. -/
def perform (H : Handler Op Ans σ) (p : Pool ι Op Ans A σ) (i : ι) (op : Op)
    (k : Ans op → Prog Op Ans A) : Pool ι Op Ans A σ :=
  { shared := (H op p.shared).2
    threads := Function.update p.threads i (k (H op p.shared).1)
    log := p.log ++ [⟨i, op, (H op p.shared).1⟩] }

/-- One step of program `i`; nothing when it has its outcome. -/
def step (H : Handler Op Ans σ) (p : Pool ι Op Ans A σ) (i : ι) : Pool ι Op Ans A σ :=
  match p.threads i with
  | .ret _ => p
  | .vis op k => p.perform H i op k

/-- The pool after a schedule. -/
def run (H : Handler Op Ans σ) (p : Pool ι Op Ans A σ) (schedule : List ι) : Pool ι Op Ans A σ :=
  schedule.foldl (step H) p

/-- Program `i` has its outcome `a`. -/
def Finished (p : Pool ι Op Ans A σ) (i : ι) (a : A) : Prop := p.threads i = .ret a

@[simp] theorem perform_shared (H : Handler Op Ans σ) (p : Pool ι Op Ans A σ) (i : ι) (op : Op)
    (k : Ans op → Prog Op Ans A) : (p.perform H i op k).shared = (H op p.shared).2 := rfl

@[simp] theorem perform_log (H : Handler Op Ans σ) (p : Pool ι Op Ans A σ) (i : ι) (op : Op)
    (k : Ans op → Prog Op Ans A) :
    (p.perform H i op k).log = p.log ++ [⟨i, op, (H op p.shared).1⟩] := rfl

@[simp] theorem perform_threads_self (H : Handler Op Ans σ) (p : Pool ι Op Ans A σ) (i : ι)
    (op : Op) (k : Ans op → Prog Op Ans A) :
    (p.perform H i op k).threads i = k (H op p.shared).1 := Function.update_self ..

theorem perform_threads_of_ne (H : Handler Op Ans σ) (p : Pool ι Op Ans A σ) {i j : ι} (op : Op)
    (k : Ans op → Prog Op Ans A) (h : j ≠ i) : (p.perform H i op k).threads j = p.threads j :=
  Function.update_of_ne h _ _

theorem step_of_ret {H : Handler Op Ans σ} {p : Pool ι Op Ans A σ} {i : ι} {a : A}
    (h : p.threads i = .ret a) : p.step H i = p := by
  simp only [step, h]

theorem step_of_vis {H : Handler Op Ans σ} {p : Pool ι Op Ans A σ} {i : ι} {op : Op}
    {k : Ans op → Prog Op Ans A} (h : p.threads i = .vis op k) :
    p.step H i = p.perform H i op k := by
  simp only [step, h]

@[simp] theorem run_nil (H : Handler Op Ans σ) (p : Pool ι Op Ans A σ) : p.run H [] = p := rfl

@[simp] theorem run_cons (H : Handler Op Ans σ) (p : Pool ι Op Ans A σ) (i : ι)
    (schedule : List ι) : p.run H (i :: schedule) = (p.step H i).run H schedule := rfl

/-- **The invariant rule.** What holds at the start and is kept by every performed operation holds
after every schedule. -/
theorem run_induct {H : Handler Op Ans σ} {P : Pool ι Op Ans A σ → Prop}
    (keeps : ∀ p i op k, P p → p.threads i = .vis op k → P (p.perform H i op k))
    {p : Pool ι Op Ans A σ} (start : P p) (schedule : List ι) : P (p.run H schedule) := by
  induction schedule generalizing p with
  | nil => exact start
  | cons i schedule ih =>
    rw [run_cons]
    apply ih
    cases h : p.threads i with
    | ret a => rw [step_of_ret h]; exact start
    | vis op k => rw [step_of_vis h]; exact keeps p i op k start h

/-- A run only adds to the log. -/
theorem run_log (H : Handler Op Ans σ) (p : Pool ι Op Ans A σ) (schedule : List ι) :
    ∃ m, (p.run H schedule).log = p.log ++ m := by
  refine run_induct (P := fun q => ∃ m, q.log = p.log ++ m) ?_ ⟨[], (List.append_nil _).symm⟩ schedule
  rintro q i op k ⟨m, hm⟩ -
  rw [perform_log, hm, List.append_assoc]
  exact ⟨_, rfl⟩

/-! ## Histories

A log is a history when every operation in it was answered as the handler answers in the state the
operations before it leave, and every program's own operations are operations it asks. The log of a
run is one, so what is shown of all histories holds of every interleaving.
-/

/-- The state after the operations of a log. -/
def replay (H : Handler Op Ans σ) (s : σ) (log : List (Event ι Op Ans)) : σ :=
  log.foldl (fun s e => (H e.op s).2) s

omit [DecidableEq ι] in
@[simp] theorem replay_nil (H : Handler Op Ans σ) (s : σ) :
    replay H s ([] : List (Event ι Op Ans)) = s := rfl

omit [DecidableEq ι] in
@[simp] theorem replay_snoc (H : Handler Op Ans σ) (s : σ) (log : List (Event ι Op Ans))
    (e : Event ι Op Ans) : replay H s (log ++ [e]) = (H e.op (replay H s log)).2 := by
  simp only [replay, List.foldl_append, List.foldl_cons, List.foldl_nil]

/-- The operations of program `i` in a log. -/
def own (i : ι) (log : List (Event ι Op Ans)) : List (Prog.Answered Op Ans) :=
  (log.filter (·.thread = i)).map fun e => ⟨e.op, e.ans⟩

@[simp] theorem own_nil (i : ι) : own i ([] : List (Event ι Op Ans)) = [] := rfl

@[simp] theorem own_append (i : ι) (l₁ l₂ : List (Event ι Op Ans)) :
    own i (l₁ ++ l₂) = own i l₁ ++ own i l₂ := by
  simp only [own, List.filter_append, List.map_append]

theorem own_self (e : Event ι Op Ans) (l : List (Event ι Op Ans)) :
    own e.thread (e :: l) = ⟨e.op, e.ans⟩ :: own e.thread l := by
  simp only [own, decide_true, List.filter_cons_of_pos, List.map_cons]

theorem own_of_ne {i : ι} {e : Event ι Op Ans} (h : e.thread ≠ i) (l : List (Event ι Op Ans)) :
    own i (e :: l) = own i l := by
  simp only [own, List.filter_cons, h, decide_false, Bool.false_eq_true, if_false]

theorem mem_own {i : ι} {o : Prog.Answered Op Ans} {l : List (Event ι Op Ans)} :
    o ∈ own i l ↔ ⟨i, o.1, o.2⟩ ∈ l := by
  simp only [own, List.mem_map, List.mem_filter, decide_eq_true_eq]
  constructor
  · rintro ⟨e, ⟨he, rfl⟩, rfl⟩
    exact he
  · intro h
    exact ⟨_, ⟨h, rfl⟩, rfl⟩

/-- The logs the programs may leave from the state `s`. -/
structure History (H : Handler Op Ans σ) (s : σ) (threads : ι → Prog Op Ans A)
    (log : List (Event ι Op Ans)) : Prop where
  answered : ∀ l₁ e l₂, log = l₁ ++ e :: l₂ → e.ans = (H e.op (replay H s l₁)).1
  leads : ∀ i, ∃ q, (threads i).Leads (own i log) q

namespace History

variable {H : Handler Op Ans σ} {s : σ} {threads : ι → Prog Op Ans A}
  {l₁ l₂ : List (Event ι Op Ans)}

theorem left (h : History H s threads (l₁ ++ l₂)) : History H s threads l₁ where
  answered := by
    rintro m e m' rfl
    exact h.answered m e (m' ++ l₂) (by simp only [List.append_assoc, List.cons_append])
  leads i := by
    obtain ⟨q, hq⟩ := h.leads i
    rw [own_append] at hq
    obtain ⟨r, hr, _⟩ := hq.split
    exact ⟨r, hr⟩

/-- The program of the last event had performed its own operations before it, and asked it. -/
theorem last {e : Event ι Op Ans} (h : History H s threads (l₁ ++ [e])) :
    e.ans = (H e.op (replay H s l₁)).1 ∧
      ∃ k, (threads e.thread).Leads (own e.thread l₁) (.vis e.op k) := by
  refine ⟨h.answered l₁ e [] rfl, ?_⟩
  obtain ⟨q, hq⟩ := h.leads e.thread
  rw [own_append] at hq
  obtain ⟨r, hr, hlast⟩ := hq.split
  rw [own_self] at hlast
  cases hlast with
  | step _ => exact ⟨_, hr⟩

/-- **The rule for histories.** -/
theorem induct {P : List (Event ι Op Ans) → Prop} (nil : P [])
    (snoc : ∀ l e, History H s threads (l ++ [e]) → P l → P (l ++ [e]))
    {log : List (Event ι Op Ans)} (h : History H s threads log) : P log := by
  induction log using List.reverseRecOn with
  | nil => exact nil
  | append_singleton l e ih => exact snoc l e h (ih h.left)

end History

omit [DecidableEq ι] in
/-- `e` stands before `e'` in the log. -/
def Precedes (log : List (Event ι Op Ans)) (e e' : Event ι Op Ans) : Prop :=
  ∃ l₁ l₂, log = l₁ ++ e' :: l₂ ∧ e ∈ l₁

omit [DecidableEq ι] in
theorem precedes_total {log : List (Event ι Op Ans)} {e e' : Event ι Op Ans} (h : e ∈ log)
    (h' : e' ∈ log) : e = e' ∨ Precedes log e e' ∨ Precedes log e' e := by
  obtain ⟨l₁, l₂, rfl⟩ := List.append_of_mem h
  rcases List.mem_append.mp h' with h' | h'
  · exact .inr (.inr ⟨l₁, l₂, rfl, h'⟩)
  · rcases List.mem_cons.mp h' with rfl | h'
    · exact .inl rfl
    · obtain ⟨m₁, m₂, rfl⟩ := List.append_of_mem h'
      refine .inr (.inl ⟨l₁ ++ e :: m₁, m₂, ?_, ?_⟩)
      · simp only [List.append_assoc, List.cons_append]
      · exact List.mem_append_right _ List.mem_cons_self

/-- What a run leaves: a log that is a history, the state its replay leaves, and every program
where its own operations lead. -/
theorem run_history (H : Handler Op Ans σ) (s : σ) (threads : ι → Prog Op Ans A)
    (schedule : List ι) :
    let p := (start s threads).run H schedule
    p.shared = replay H s p.log ∧ (∀ i, (threads i).Leads (own i p.log) (p.threads i)) ∧
      History H s threads p.log := by
  refine run_induct (P := fun p => p.shared = replay H s p.log ∧
    (∀ i, (threads i).Leads (own i p.log) (p.threads i)) ∧ History H s threads p.log)
    ?_ ?_ schedule
  · rintro p i op k ⟨hshared, hleads, hhist⟩ hi
    have hleads' : ∀ j, (threads j).Leads (own j (p.perform H i op k).log)
        ((p.perform H i op k).threads j) := by
      intro j
      rw [perform_log, own_append]
      by_cases hj : j = i
      · subst hj
        rw [perform_threads_self, own_self ⟨j, op, _⟩, own_nil]
        have hjp := hleads j
        rw [hi] at hjp
        exact hjp.snoc _
      · rw [perform_threads_of_ne _ _ _ _ hj, own_of_ne (Ne.symm hj), own_nil, List.append_nil]
        exact hleads j
    refine ⟨?_, hleads', ?_, fun j => ⟨_, hleads' j⟩⟩
    · rw [perform_log, replay_snoc, ← hshared, perform_shared]
    · intro l₁ e l₂ hl
      rw [perform_log] at hl
      rcases List.eq_nil_or_concat l₂ with rfl | ⟨m, e', rfl⟩
      · obtain ⟨rfl, hlast⟩ := List.append_inj' hl rfl
        cases hlast
        simp only [← hshared]
      · refine hhist.answered l₁ e m ?_
        have hl' : p.log ++ [⟨i, op, (H op p.shared).1⟩] = (l₁ ++ e :: m) ++ [e'] := by
          simpa only [List.concat_eq_append, List.append_assoc, List.cons_append] using hl
        exact (List.append_inj' hl' rfl).1
  · refine ⟨rfl, fun i => .refl _, ?_, fun i => ⟨_, .refl _⟩⟩
    intro l₁ e l₂ hl
    simp only [start, List.nil_eq, List.append_eq_nil_iff, reduceCtorEq, and_false] at hl

/-! ## Outcomes -/

/-- An outcome is final. -/
theorem run_of_ret {H : Handler Op Ans σ} {p : Pool ι Op Ans A σ} {i : ι} {a : A}
    (h : p.threads i = .ret a) (schedule : List ι) : (p.run H schedule).threads i = .ret a := by
  refine run_induct (P := fun q => q.threads i = .ret a) ?_ h schedule
  intro q j op k hq hj
  have hne : i ≠ j := by
    rintro rfl
    rw [hq] at hj
    cases hj
  rw [perform_threads_of_ne _ _ _ _ hne]
  exact hq

section Waits

variable {waits : Op → σ → Bool} {H : Handler Op Ans σ} {p p' : Pool ι Op Ans A σ} {i : ι}

/-- One step of program `i`, unless it has its outcome or its operation waits. -/
def advance (waits : Op → σ → Bool) (H : Handler Op Ans σ) (i : ι) (p : Pool ι Op Ans A σ) :
    Option (Pool ι Op Ans A σ) :=
  match p.threads i with
  | .ret _ => none
  | .vis op k => if waits op p.shared then none else some (p.perform H i op k)

theorem advance_eq_some : p.advance waits H i = some p' ↔
    ∃ op k, p.threads i = .vis op k ∧ waits op p.shared = false ∧ p' = p.perform H i op k := by
  unfold advance
  cases p.threads i with
  | ret a => simp only [reduceCtorEq, false_and, exists_false]
  | vis op k =>
    show (if waits op p.shared then none else some (p.perform H i op k)) = some p' ↔ _
    cases hwaits : waits op p.shared with
    | true =>
      rw [if_pos rfl]
      constructor
      · exact nofun
      · rintro ⟨op', k', hop, hfree, -⟩
        cases hop
        rw [hwaits] at hfree
        cases hfree
    | false =>
      rw [if_neg Bool.false_ne_true, Option.some.injEq]
      constructor
      · rintro rfl
        exact ⟨op, k, rfl, hwaits, rfl⟩
      · rintro ⟨op', k', hop, -, rfl⟩
        cases hop
        rfl

end Waits

/-! ## Reading before writing

A program that reads and then writes what it read back, changed, loses what others wrote in between.
-/

section Writes

variable {writes : Op → Prop} {i : ι} {l l₁ l₂ : List (Event ι Op Ans)} {e : Event ι Op Ans}

omit [DecidableEq ι] in
/-- Nobody wrote since the last operation of program `i`. -/
def Current (writes : Op → Prop) (log : List (Event ι Op Ans)) (i : ι) : Prop :=
  ∃ l₁ e l₂, log = l₁ ++ e :: l₂ ∧ e.thread = i ∧ ∀ x ∈ l₂, x.thread ≠ i ∧ ¬writes x.op

omit [DecidableEq ι] in
/-- Nobody wrote between a write and the operation its program performed before it. -/
def Undisturbed (writes : Op → Prop) (log : List (Event ι Op Ans)) : Prop :=
  ∀ l₁ e l₂, log = l₁ ++ e :: l₂ → writes e.op → Current writes l₁ e.thread

omit [DecidableEq ι] in
theorem current_self (writes : Op → Prop) (l : List (Event ι Op Ans)) (e : Event ι Op Ans) :
    Current writes (l ++ [e]) e.thread :=
  ⟨l, e, [], rfl, rfl, fun _ hx => absurd hx List.not_mem_nil⟩

omit [DecidableEq ι] in
theorem Current.of_snoc (h : Current writes (l ++ [e]) i) (hne : e.thread ≠ i) :
    Current writes l i ∧ ¬writes e.op := by
  obtain ⟨l₁, x, l₂, hsplit, hx, hrest⟩ := h
  rcases List.eq_nil_or_concat l₂ with rfl | ⟨m, y, rfl⟩
  · obtain ⟨-, hlast⟩ := List.append_inj' hsplit rfl
    cases hlast
    exact absurd hx hne
  · rw [List.concat_eq_append, ← List.cons_append, ← List.append_assoc] at hsplit
    obtain ⟨rfl, hlast⟩ := List.append_inj' hsplit rfl
    cases hlast
    rw [List.concat_eq_append] at hrest
    exact ⟨⟨l₁, x, m, rfl, hx, fun z hz => hrest z (List.mem_append_left _ hz)⟩,
      (hrest e (List.mem_append_right _ List.mem_cons_self)).2⟩

omit [DecidableEq ι] in
theorem undisturbed_nil : Undisturbed writes ([] : List (Event ι Op Ans)) := by
  intro l₁ e l₂ hsplit
  exact absurd hsplit (List.append_ne_nil_of_right_ne_nil l₁ (List.cons_ne_nil _ _)).symm

omit [DecidableEq ι] in
theorem Undisturbed.snoc (h : Undisturbed writes l) (hlast : writes e.op → Current writes l e.thread) :
    Undisturbed writes (l ++ [e]) := by
  intro l₁ x l₂ hsplit hwrites
  rcases List.eq_nil_or_concat l₂ with rfl | ⟨m, y, rfl⟩
  · obtain ⟨rfl, hx⟩ := List.append_inj' hsplit rfl
    cases hx
    exact hlast hwrites
  · rw [List.concat_eq_append, ← List.cons_append, ← List.append_assoc] at hsplit
    obtain ⟨rfl, -⟩ := List.append_inj' hsplit rfl
    exact h l₁ x m rfl hwrites

omit [DecidableEq ι] in
/-- A program that reads and writes with nobody in between is undisturbed. -/
theorem Undisturbed.update {g : Event ι Op Ans} (h : Undisturbed writes l) (hread : ¬writes g.op)
    (hsame : g.thread = e.thread) : Undisturbed writes (l ++ [g] ++ [e]) :=
  (h.snoc fun hwrites => absurd hwrites hread).snoc fun _ => hsame ▸ current_self writes l g

omit [DecidableEq ι] in
theorem Undisturbed.left (h : Undisturbed writes (l₁ ++ l₂)) : Undisturbed writes l₁ := by
  rintro m e m' rfl hwrites
  exact h m e (m' ++ l₂) (by simp only [List.append_assoc, List.cons_append]) hwrites

omit [DecidableEq ι] in
theorem Undisturbed.last (h : Undisturbed writes (l ++ [e])) (hwrites : writes e.op) :
    Current writes l e.thread := h l e [] rfl hwrites

end Writes

end Pool

end ClawEngine.Core
