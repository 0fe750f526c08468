import ClawEngine.Core.Part

/-!
# Operations that take effect at once

An operation may be a program of smaller operations, between which other programs run. It takes
effect at once when one of these does to the state what the whole does, and leaves it with its
answer; those before and after leave the state as it is. What the ones before have seen may be out
of date by then, so `Pending` says what is still true of an operation that has not taken effect.

Every interleaving of the smaller operations is then an interleaving of the whole ones, in an order
that grows with the schedule: `TakesEffect.linearizable`. Some operations are seen from outside:
what is seen of the two interleavings is the same.
-/

set_option autoImplicit false

namespace ClawEngine.Core

universe u v w

variable {ι Op Op' : Type u} {Ans : Op → Type v} {Ans' : Op' → Type v} {A B σ : Type v}
  {ν : Type w}

namespace Prog

/-- One program after another. -/
def bind : Prog Op Ans A → (A → Prog Op Ans B) → Prog Op Ans B
  | .ret a, f => f a
  | .vis op k, f => .vis op fun x => (k x).bind f

@[simp] theorem ret_bind (a : A) (f : A → Prog Op Ans B) : (Prog.ret a).bind f = f a := rfl

@[simp] theorem vis_bind (op : Op) (k : Ans op → Prog Op Ans A) (f : A → Prog Op Ans B) :
    (Prog.vis op k).bind f = .vis op fun x => (k x).bind f := rfl

/-- Every operation performed as the program that `impl` gives for it. -/
def expand (impl : (op : Op) → Prog Op' Ans' (Ans op)) : Prog Op Ans A → Prog Op' Ans' A
  | .ret a => .ret a
  | .vis op k => (impl op).bind fun x => (k x).expand impl

@[simp] theorem expand_ret (impl : (op : Op) → Prog Op' Ans' (Ans op)) (a : A) :
    (Prog.ret a : Prog Op Ans A).expand impl = .ret a := rfl

@[simp] theorem expand_vis (impl : (op : Op) → Prog Op' Ans' (Ans op)) (op : Op)
    (k : Ans op → Prog Op Ans A) :
    (Prog.vis op k).expand impl = (impl op).bind fun x => (k x).expand impl := rfl

/-- The program after at most `n` of its operations, performed one after the other. -/
def advance (H : Handler Op Ans σ) : ℕ → Prog Op Ans A → σ → Prog Op Ans A × σ
  | 0, p, s => (p, s)
  | _ + 1, .ret a, s => (.ret a, s)
  | n + 1, .vis op k, s => advance H n (k (H op s).1) (H op s).2

/-- The operations that `advance` performs, with their answers. -/
def performed (H : Handler Op Ans σ) : ℕ → Prog Op Ans A → σ → List (Answered Op Ans)
  | 0, _, _ => []
  | _ + 1, .ret _, _ => []
  | n + 1, .vis op k, s => ⟨op, (H op s).1⟩ :: performed H n (k (H op s).1) (H op s).2

@[simp] theorem advance_ret (H : Handler Op Ans σ) (n : ℕ) (a : A) (s : σ) :
    (Prog.ret a).advance H n s = (.ret a, s) := by
  cases n <;> rfl

@[simp] theorem performed_ret (H : Handler Op Ans σ) (n : ℕ) (a : A) (s : σ) :
    (Prog.ret a).performed H n s = [] := by
  cases n <;> rfl

/-- A program that has its outcome `a`, but for operations that leave every state as it is and are
not seen. -/
inductive Settled (H : Handler Op Ans σ) (seen : Answered Op Ans → Option ν) (a : A) :
    Prog Op Ans A → Prop
  | ret : Settled H seen a (.ret a)
  | vis {op : Op} {k : Ans op → Prog Op Ans A}
      (leaves : ∀ s, (H op s).2 = s ∧ seen ⟨op, (H op s).1⟩ = none)
      (rest : ∀ s, Settled H seen a (k (H op s).1)) : Settled H seen a (.vis op k)

end Prog

/-- **Operations that take effect at once.** A `Pending` program is what is left of an operation
that has not taken effect, in the state that others have left. What is seen of an operation is seen
where it takes effect. -/
structure TakesEffect (H : Handler Op Ans σ) (H' : Handler Op' Ans' σ)
    (impl : (op : Op) → Prog Op' Ans' (Ans op)) (seen : Prog.Answered Op Ans → Option ν)
    (seen' : Prog.Answered Op' Ans' → Option ν)
    (Pending : (op : Op) → σ → Prog Op' Ans' (Ans op) → Prop) : Prop where
  start : ∀ op s, Pending op s (impl op)
  stable : ∀ {op s q} (other : Op), Pending op s q → Pending op (H other s).2 q
  answer : ∀ {op s a}, Pending op s (.ret a) → H op s = (a, s) ∧ seen ⟨op, a⟩ = none
  step : ∀ {op s o k}, Pending op s (.vis o k) →
    ((H' o s).2 = s ∧ seen' ⟨o, (H' o s).1⟩ = none ∧ Pending op s (k (H' o s).1)) ∨
      ((H op s).2 = (H' o s).2 ∧ seen ⟨op, (H op s).1⟩ = seen' ⟨o, (H' o s).1⟩ ∧
        Prog.Settled H' seen' (H op s).1 (k (H' o s).1))

/-- Where the expanded program of a thread stands, when the program itself is at `q`. -/
inductive Follows (H' : Handler Op' Ans' σ) (impl : (op : Op) → Prog Op' Ans' (Ans op))
    (seen' : Prog.Answered Op' Ans' → Option ν)
    (Pending : (op : Op) → σ → Prog Op' Ans' (Ans op) → Prop) (s : σ) :
    Prog Op' Ans' A → Prog Op Ans A → Prop
  | between (q : Prog Op Ans A) : Follows H' impl seen' Pending s (q.expand impl) q
  | during {op : Op} {k : Ans op → Prog Op Ans A} {r : Prog Op' Ans' (Ans op)}
      (pending : Pending op s r) :
      Follows H' impl seen' Pending s (r.bind fun x => (k x).expand impl) (.vis op k)
  | after {op : Op} {a : Ans op} {k : Ans op → Prog Op Ans A} {r : Prog Op' Ans' (Ans op)}
      (settled : Prog.Settled H' seen' a r) :
      Follows H' impl seen' Pending s (r.bind fun x => (k x).expand impl) (k a)

namespace TakesEffect

variable {H : Handler Op Ans σ} {H' : Handler Op' Ans' σ}
  {impl : (op : Op) → Prog Op' Ans' (Ans op)} {seen : Prog.Answered Op Ans → Option ν}
  {seen' : Prog.Answered Op' Ans' → Option ν}
  {Pending : (op : Op) → σ → Prog Op' Ans' (Ans op) → Prop} {s : σ}

/-! ## One program -/

/-- `n` steps of the program make up for a step of its expansion. -/
structure MakesUp (H : Handler Op Ans σ) (H' : Handler Op' Ans' σ)
    (impl : (op : Op) → Prog Op' Ans' (Ans op)) (seen : Prog.Answered Op Ans → Option ν)
    (seen' : Prog.Answered Op' Ans' → Option ν)
    (Pending : (op : Op) → σ → Prog Op' Ans' (Ans op) → Prop) (s : σ) (q : Prog Op Ans A) (o : Op')
    (k : Ans' o → Prog Op' Ans' A) (n : ℕ) : Prop where
  state : (q.advance H n s).2 = (H' o s).2
  seen : (q.performed H n s).filterMap seen = (seen' ⟨o, (H' o s).1⟩).toList
  follows : Follows H' impl seen' Pending (H' o s).2 (k (H' o s).1) (q.advance H n s).1

variable (h : TakesEffect H H' impl seen seen' Pending)

include h

theorem makesUp_during {op : Op} {k : Ans op → Prog Op Ans A} {r : Prog Op' Ans' (Ans op)}
    (hr : Pending op s r) {o : Op'} {kk : Ans' o → Prog Op' Ans' A}
    (hf : (r.bind fun x => (k x).expand impl) = .vis o kk)
    (hrest : ∀ a, (k a).expand impl = .vis o kk →
      ∃ n, MakesUp H H' impl seen seen' Pending s (k a) o kk n) :
    ∃ n, MakesUp H H' impl seen seen' Pending s (.vis op k) o kk n := by
  cases r with
  | ret a =>
    -- the operation needed no step, so it is performed with what comes after it
    obtain ⟨n, hstate, hseen, hfollows⟩ := hrest a hf
    obtain ⟨hop, hunseen⟩ := h.answer hr
    refine ⟨n + 1, ?_, ?_, ?_⟩ <;> simp only [Prog.advance, Prog.performed, hop]
    · exact hstate
    · rw [List.filterMap_cons_none hunseen]
      exact hseen
    · exact hfollows
  | vis o' k' =>
    cases hf
    obtain ⟨hstate, hunseen, hpending⟩ | ⟨hstate, hseen, hsettled⟩ := h.step hr
    · refine ⟨0, hstate.symm, by rw [hunseen]; rfl, ?_⟩
      rw [hstate]
      exact .during hpending
    · refine ⟨1, hstate, ?_, .after hsettled⟩
      rw [← hseen]
      exact (List.filterMap_cons ..).trans (by cases seen ⟨op, (H op s).1⟩ <;> rfl)

theorem makesUp_expand (q : Prog Op Ans A) {o : Op'} {kk : Ans' o → Prog Op' Ans' A}
    (hf : q.expand impl = .vis o kk) : ∃ n, MakesUp H H' impl seen seen' Pending s q o kk n := by
  induction q with
  | ret a => cases hf
  | vis op k ih => exact h.makesUp_during (h.start op s) hf fun a => ih a

/-- **A step of the expanded program** is made up for by some steps of the program, maybe none. -/
theorem makesUp {q : Prog Op Ans A} {o : Op'} {kk : Ans' o → Prog Op' Ans' A}
    (hq : Follows H' impl seen' Pending s (.vis o kk) q) :
    ∃ n, MakesUp H H' impl seen seen' Pending s q o kk n := by
  generalize hf : Prog.vis o kk = f at hq
  cases hq with
  | between q => exact h.makesUp_expand q hf.symm
  | during pending => exact h.makesUp_during pending hf.symm fun a ha => h.makesUp_expand _ ha
  | after settled =>
    cases settled with
    | ret => exact h.makesUp_expand _ hf.symm
    | vis leaves rest =>
      cases hf
      obtain ⟨hstate, hunseen⟩ := leaves s
      exact ⟨0, hstate.symm, by rw [hunseen]; rfl, .after (rest s)⟩

/-- Steps that bring the program to its outcome, leave the state as it is and are not seen. -/
def EndsUnseen (H : Handler Op Ans σ) (seen : Prog.Answered Op Ans → Option ν) (s : σ)
    (q : Prog Op Ans A) (a : A) : Prop :=
  ∃ n, q.advance H n s = (.ret a, s) ∧ (q.performed H n s).filterMap seen = []

theorem ends_vis {op : Op} {k : Ans op → Prog Op Ans A} {b : Ans op} {a : A}
    (hr : Pending op s (.ret b)) (hrest : EndsUnseen H seen s (k b) a) :
    EndsUnseen H seen s (.vis op k) a := by
  obtain ⟨hop, hunseen⟩ := h.answer hr
  obtain ⟨n, hend, hseen⟩ := hrest
  refine ⟨n + 1, ?_, ?_⟩ <;> simp only [Prog.advance, Prog.performed, hop]
  · exact hend
  · rw [List.filterMap_cons_none hunseen]
    exact hseen

theorem ends_expand (q : Prog Op Ans A) {a : A} (hf : q.expand impl = .ret a) :
    EndsUnseen H seen s q a := by
  induction q with
  | ret b =>
    cases hf
    exact ⟨0, rfl, rfl⟩
  | vis op k ih =>
    have hpending := h.start op s
    rw [Prog.expand_vis] at hf
    cases hr : impl op with
    | ret b =>
      rw [hr] at hf hpending
      exact h.ends_vis hpending (ih b hf)
    | vis o k' =>
      rw [hr] at hf
      cases hf

/-- **Where the expanded program has its outcome**, so has the program after some more steps. -/
theorem ends {q : Prog Op Ans A} {a : A} (hq : Follows H' impl seen' Pending s (.ret a) q) :
    EndsUnseen H seen s q a := by
  generalize hf : Prog.ret a = f at hq
  cases hq with
  | between q => exact h.ends_expand q hf.symm
  | @during op k r pending =>
    cases r with
    | ret b => exact h.ends_vis pending (h.ends_expand _ hf.symm)
    | vis o k' => cases hf
  | after settled =>
    cases settled with
    | ret => exact h.ends_expand _ hf.symm
    | vis leaves rest => cases hf

/-- An operation stays pending while another program advances. -/
theorem stable_advance {op : Op} {r : Prog Op' Ans' (Ans op)} (n : ℕ) (q : Prog Op Ans A)
    (hr : Pending op s r) : Pending op (q.advance H n s).2 r := by
  induction n generalizing q s with
  | zero => exact hr
  | succ n ih =>
    cases q with
    | ret a => exact hr
    | vis other k => exact ih _ (h.stable other hr)

theorem follows_advance {f : Prog Op' Ans' B} {g : Prog Op Ans B} (n : ℕ) (q : Prog Op Ans A)
    (hf : Follows H' impl seen' Pending s f g) :
    Follows H' impl seen' Pending (q.advance H n s).2 f g := by
  cases hf with
  | between g => exact .between g
  | during pending => exact .during (h.stable_advance n q pending)
  | after settled => exact .after settled

end TakesEffect

/-! ## Pools -/

section Pools

variable [DecidableEq ι] {H : Handler Op Ans σ} {H' : Handler Op' Ans' σ}
  {impl : (op : Op) → Prog Op' Ans' (Ans op)} {seen : Prog.Answered Op Ans → Option ν}
  {seen' : Prog.Answered Op' Ans' → Option ν}
  {Pending : (op : Op) → σ → Prog Op' Ans' (Ans op) → Prop}
  {p : Pool ι Op Ans A σ} {p' : Pool ι Op' Ans' A σ} {i : ι}

theorem Pool.step_threads_of_ne {j : ι} (hij : i ≠ j) : (p.step H j).threads i = p.threads i := by
  cases hop : p.threads j with
  | ret a => rw [step_of_ret hop]
  | vis op k => rw [step_of_vis hop, perform_threads_of_ne _ _ _ _ hij]

/-- Some steps of one program. -/
theorem Pool.run_replicate (H : Handler Op Ans σ) (p : Pool ι Op Ans A σ) (i : ι) (n : ℕ) :
    p.run H (List.replicate n i) =
      { shared := ((p.threads i).advance H n p.shared).2
        threads := Function.update p.threads i ((p.threads i).advance H n p.shared).1
        log := p.log ++ ((p.threads i).performed H n p.shared).map fun o => ⟨i, o.1, o.2⟩ } := by
  induction n generalizing p with
  | zero =>
    simp only [List.replicate_zero, run_nil, Prog.advance, Prog.performed, List.map_nil,
      List.append_nil, Function.update_eq_self]
  | succ n ih =>
    rw [List.replicate_succ, run_cons]
    cases hop : p.threads i with
    | ret a =>
      rw [step_of_ret hop, ih p, hop]
      simp only [Prog.advance_ret, Prog.performed_ret]
    | vis op k =>
      rw [step_of_vis hop, ih, perform_threads_self, perform_shared, perform_log]
      simp only [perform, Function.update_idem, Prog.advance, Prog.performed, List.map_cons,
        List.append_assoc, List.cons_append, List.nil_append]

theorem Pool.run_replicate_threads (H : Handler Op Ans σ) (p : Pool ι Op Ans A σ) (i : ι) (n : ℕ) :
    (p.run H (List.replicate n i)).threads =
      Function.update p.threads i ((p.threads i).advance H n p.shared).1 := by
  rw [run_replicate]

/-- What is seen of a log, and of which program. -/
def Pool.seenOf (seen : Prog.Answered Op Ans → Option ν) (log : List (Event ι Op Ans)) :
    List (ι × ν) :=
  log.filterMap fun e => (seen ⟨e.op, e.ans⟩).map (e.thread, ·)

omit [DecidableEq ι] in
theorem Pool.seenOf_append (l₁ l₂ : List (Event ι Op Ans)) :
    seenOf seen (l₁ ++ l₂) = seenOf seen l₁ ++ seenOf seen l₂ := List.filterMap_append

omit [DecidableEq ι] in
theorem Pool.seenOf_own (i : ι) (l : List (Prog.Answered Op Ans)) :
    seenOf seen (l.map fun o => ⟨i, o.1, o.2⟩) = (l.filterMap seen).map (i, ·) := by
  rw [seenOf, List.filterMap_map, List.map_filterMap]
  rfl

/-- The pool `p'` of the expanded programs stands where the pool `p` of the programs does. -/
structure Matches (H' : Handler Op' Ans' σ) (impl : (op : Op) → Prog Op' Ans' (Ans op))
    (seen : Prog.Answered Op Ans → Option ν) (seen' : Prog.Answered Op' Ans' → Option ν)
    (Pending : (op : Op) → σ → Prog Op' Ans' (Ans op) → Prop) (p' : Pool ι Op' Ans' A σ)
    (p : Pool ι Op Ans A σ) : Prop where
  shared : p'.shared = p.shared
  seen : Pool.seenOf seen' p'.log = Pool.seenOf seen p.log
  threads : ∀ i, Follows H' impl seen' Pending p.shared (p'.threads i) (p.threads i)

variable (h : TakesEffect H H' impl seen seen' Pending)

include h

theorem Matches.step (hp : Matches H' impl seen seen' Pending p' p) (i : ι) :
    ∃ n, Matches H' impl seen seen' Pending (p'.step H' i) (p.run H (List.replicate n i)) := by
  cases hop : p'.threads i with
  | ret a =>
    rw [Pool.step_of_ret hop]
    exact ⟨0, hp⟩
  | vis o k =>
    rw [Pool.step_of_vis hop]
    obtain ⟨n, hstate, hseen, hfollows⟩ := h.makesUp (hop ▸ hp.threads i)
    refine ⟨n, ?_⟩
    rw [Pool.run_replicate]
    refine ⟨?_, ?_, fun j => ?_⟩
    · rw [Pool.perform_shared, hp.shared, hstate]
    · rw [Pool.perform_log, Pool.seenOf_append, Pool.seenOf_append, hp.seen, Pool.seenOf_own, hseen,
        hp.shared]
      congr 1
      cases hone : seen' ⟨o, (H' o p.shared).1⟩ <;> simp [Pool.seenOf, hone]
    · dsimp only
      by_cases hj : j = i
      · subst hj
        rw [Pool.perform_threads_self, Function.update_self, hp.shared, hstate]
        exact hfollows
      · rw [Pool.perform_threads_of_ne _ _ _ _ hj, Function.update_of_ne hj]
        exact h.follows_advance n _ (hp.threads j)

/-- A program whose expansion has its outcome is performed to its end. -/
theorem Matches.catchUp (hp : Matches H' impl seen seen' Pending p' p) {a : A}
    (hend : p'.Finished i a) :
    ∃ n, Matches H' impl seen seen' Pending p' (p.run H (List.replicate n i)) ∧
      (p.run H (List.replicate n i)).Finished i a := by
  obtain ⟨n, hn, hunseen⟩ := h.ends (hend ▸ hp.threads i)
  refine ⟨n, ?_, ?_⟩
  · rw [Pool.run_replicate, hn]
    refine ⟨hp.shared, ?_, fun j => ?_⟩
    · rw [Pool.seenOf_append, Pool.seenOf_own, hunseen, List.map_nil, List.append_nil]
      exact hp.seen
    · dsimp only
      by_cases hj : j = i
      · subst hj
        rw [Function.update_self, show p'.threads j = .ret a from hend]
        exact .between (.ret a)
      · rw [Function.update_of_ne hj]
        exact hp.threads j
  · rw [Pool.Finished, Pool.run_replicate_threads, hn, Function.update_self]

/-- **A step of the schedule** is a burst of steps of the same program, after which the program has
its outcome if its expansion has. -/
theorem Matches.burst (hp : Matches H' impl seen seen' Pending p' p) (i : ι) :
    ∃ n, Matches H' impl seen seen' Pending (p'.step H' i) (p.run H (List.replicate n i)) ∧
      ∀ a, (p'.step H' i).Finished i a → (p.run H (List.replicate n i)).Finished i a := by
  obtain ⟨n, hn⟩ := hp.step h i
  cases hop : (p'.step H' i).threads i with
  | ret a =>
    obtain ⟨m, hm, hend⟩ := hn.catchUp h hop
    rw [← Pool.run_append, List.replicate_append_replicate] at hm hend
    refine ⟨n + m, hm, fun b hb => ?_⟩
    cases hop.symm.trans hb
    exact hend
  | vis o k => exact ⟨n, hn, fun b hb => by cases hop.symm.trans hb⟩

omit h

/-! ## The order -/

/-- Each step of a schedule answered by as many steps of the same program as `burst` says. -/
def bursts (H : Handler Op Ans σ) (H' : Handler Op' Ans' σ)
    (burst : Pool ι Op' Ans' A σ → Pool ι Op Ans A σ → ι → ℕ) (p' : Pool ι Op' Ans' A σ)
    (p : Pool ι Op Ans A σ) (schedule : List ι) : List ι :=
  (schedule.foldl (fun x i => (x.1.step H' i,
    x.2 ++ List.replicate (burst x.1 (p.run H x.2) i) i)) (p', [])).2

theorem bursts_snoc (burst : Pool ι Op' Ans' A σ → Pool ι Op Ans A σ → ι → ℕ)
    (l : List ι) (i : ι) :
    bursts H H' burst p' p (l ++ [i]) = bursts H H' burst p' p l ++
      List.replicate (burst (p'.run H' l) (p.run H (bursts H H' burst p' p l)) i) i := by
  have hrun : ∀ (q : Pool ι Op' Ans' A σ) (order : List ι),
      (l.foldl (fun x i => (x.1.step H' i,
        x.2 ++ List.replicate (burst x.1 (p.run H x.2) i) i)) (q, order)).1 = q.run H' l := by
    induction l with
    | nil => exact fun _ _ => rfl
    | cons j l ih => exact fun q order => ih _ _
  rw [bursts, List.foldl_append, List.foldl_cons, List.foldl_nil, hrun]
  rfl

/-- `order` makes of every schedule of the expanded programs one of the programs themselves. It
grows with the schedule, each step by steps of the same program; the state and what was seen are the
same, and a program that was scheduled and whose expansion has its outcome has the same outcome. -/
structure Linearizes (H : Handler Op Ans σ) (H' : Handler Op' Ans' σ)
    (impl : (op : Op) → Prog Op' Ans' (Ans op)) (seen : Prog.Answered Op Ans → Option ν)
    (seen' : Prog.Answered Op' Ans' → Option ν) (s : σ) (threads : ι → Prog Op Ans A)
    (order : List ι → List ι) : Prop where
  nil : order [] = []
  snoc : ∀ l i, ∃ n, order (l ++ [i]) = order l ++ List.replicate n i
  shared : ∀ l, ((Pool.start s fun i => (threads i).expand impl).run H' l).shared =
    ((Pool.start s threads).run H (order l)).shared
  seen : ∀ l, Pool.seenOf seen' ((Pool.start s fun i => (threads i).expand impl).run H' l).log =
    Pool.seenOf seen ((Pool.start s threads).run H (order l)).log
  finished : ∀ l i a, i ∈ l →
    ((Pool.start s fun i => (threads i).expand impl).run H' l).Finished i a →
      ((Pool.start s threads).run H (order l)).Finished i a

/-- **Programs over operations that take effect at once.** -/
theorem TakesEffect.linearizable (h : TakesEffect H H' impl seen seen' Pending) (s : σ)
    (threads : ι → Prog Op Ans A) :
    ∃ order, Linearizes H H' impl seen seen' s threads order := by
  have hburst : ∀ (p' : Pool ι Op' Ans' A σ) (p : Pool ι Op Ans A σ) (i : ι), ∃ n,
      Matches H' impl seen seen' Pending p' p →
        Matches H' impl seen seen' Pending (p'.step H' i) (p.run H (List.replicate n i)) ∧
          ∀ a, (p'.step H' i).Finished i a → (p.run H (List.replicate n i)).Finished i a := by
    intro p' p i
    by_cases hp : Matches H' impl seen seen' Pending p' p
    · obtain ⟨n, hn⟩ := hp.burst h i
      exact ⟨n, fun _ => hn⟩
    · exact ⟨0, fun hp' => absurd hp' hp⟩
  choose burst hburst using hburst
  let order := bursts H H' burst (.start s fun i => (threads i).expand impl) (.start s threads)
  have hsnoc : ∀ l i, order (l ++ [i]) = order l ++ List.replicate _ i := fun l i =>
    bursts_snoc burst l i
  have hmatches : ∀ l, Matches H' impl seen seen' Pending
      ((Pool.start s fun i => (threads i).expand impl).run H' l)
      ((Pool.start s threads).run H (order l)) ∧ ∀ i a, i ∈ l →
        ((Pool.start s fun i => (threads i).expand impl).run H' l).Finished i a →
          ((Pool.start s threads).run H (order l)).Finished i a := by
    intro l
    induction l using List.reverseRecOn with
    | nil =>
      exact ⟨⟨rfl, rfl, fun i => .between (threads i)⟩, fun i a hi => absurd hi List.not_mem_nil⟩
    | append_singleton l j ih =>
      obtain ⟨hp, hends⟩ := ih
      obtain ⟨hnext, hend⟩ := hburst _ _ j hp
      rw [hsnoc, Pool.run_append, Pool.run_append]
      refine ⟨hnext, fun i a hi hfinished => ?_⟩
      by_cases hij : i = j
      · subst hij
        exact hend a hfinished
      · have hi : i ∈ l := (List.mem_append.mp hi).resolve_right fun hi =>
          hij (List.mem_singleton.mp hi)
        rw [Pool.run_cons, Pool.run_nil, Pool.Finished, Pool.step_threads_of_ne hij] at hfinished
        rw [Pool.Finished, Pool.run_replicate_threads, Function.update_of_ne hij]
        exact hends i a hi hfinished
  exact ⟨order, rfl, fun l i => ⟨_, hsnoc l i⟩, fun l => (hmatches l).1.shared,
    fun l => (hmatches l).1.seen, fun l i a hi => (hmatches l).2 i a hi⟩

end Pools

end ClawEngine.Core
