import ClawEngine.Core.Pool

/-!
# A part of a pool

Some of the programs of a pool may only ask about a part of the shared state that the other programs
leave alone. Then these programs run in the pool as they would with nobody else there: their steps,
taken out of the schedule, make the same run. So a pool whose programs fall into such parts does not
depend on how the parts are interleaved, and what holds of every run of a part alone holds of it in
every run of the pool.

`part` names the programs of the part: it gives each its name in the pool of the part alone.
-/

set_option autoImplicit false

namespace ClawEngine.Core.Pool

universe u v

variable {ι κ Op : Type u} {Ans : Op → Type v} {A σ : Type v} [DecidableEq ι] [DecidableEq κ]
  {H : Handler Op Ans σ} {s s' : σ} {threads : ι → Prog Op Ans A} {threads' : κ → Prog Op Ans A}
  {part : ι → Option κ} {Same : σ → σ → Prop} {p : Pool ι Op Ans A σ} {q : Pool κ Op Ans A σ}
  {i : ι} {t : κ}

theorem run_append (H : Handler Op Ans σ) (p : Pool ι Op Ans A σ) (l₁ l₂ : List ι) :
    p.run H (l₁ ++ l₂) = (p.run H l₁).run H l₂ := List.foldl_append

/-- Some schedule leads there. -/
def Reached (H : Handler Op Ans σ) (s : σ) (threads : ι → Prog Op Ans A)
    (p : Pool ι Op Ans A σ) : Prop :=
  ∃ schedule, p = (start s threads).run H schedule

theorem Reached.step (h : Reached H s threads p) (i : ι) : Reached H s threads (p.step H i) := by
  obtain ⟨schedule, rfl⟩ := h
  exact ⟨schedule ++ [i], (run_append H _ schedule [i]).symm⟩

theorem Reached.perform (h : Reached H s threads p) {op : Op} {k : Ans op → Prog Op Ans A}
    (hi : p.threads i = .vis op k) : Reached H s threads (p.perform H i op k) := by
  rw [← step_of_vis hi]
  exact h.step i

/-- What holds at the start and is kept by every operation a program may perform holds of every pool
that is reached. -/
theorem Reached.induct {P : Pool ι Op Ans A σ → Prop} (h : Reached H s threads p)
    (begins : P (start s threads))
    (keeps : ∀ p i op k, Reached H s threads p → P p → p.threads i = .vis op k →
      P (p.perform H i op k)) : P p := by
  obtain ⟨schedule, rfl⟩ := h
  refine (run_induct (P := fun p => Reached H s threads p ∧ P p) ?_ ⟨⟨[], rfl⟩, begins⟩
    schedule).2
  rintro p i op k ⟨hp, hP⟩ hi
  exact ⟨hp.perform hi, keeps p i op k hp hP hi⟩

/-- What is reached has a history that leaves it. -/
theorem Reached.history (h : Reached H s threads p) :
    p.shared = replay H s p.log ∧ (∀ i, (threads i).Leads (own i p.log) (p.threads i)) ∧
      History H s threads p.log := by
  obtain ⟨schedule, rfl⟩ := h
  exact run_history H s threads schedule

/-- The events of a part. -/
def partLog (part : ι → Option κ) (log : List (Event ι Op Ans)) : List (Event κ Op Ans) :=
  log.filterMap fun e => (part e.thread).map fun t => ⟨t, e.op, e.ans⟩

omit [DecidableEq ι] [DecidableEq κ] in
theorem partLog_snoc (part : ι → Option κ) (log : List (Event ι Op Ans)) (e : Event ι Op Ans) :
    partLog part (log ++ [e]) =
      partLog part log ++ ((part e.thread).map fun t => ⟨t, e.op, e.ans⟩).toList := by
  rw [partLog, List.filterMap_append]
  cases h : part e.thread <;> simp [partLog, h]

/-- The part of the pool `p` is where the pool `q` is, and so is what it asks about. -/
structure Projects (part : ι → Option κ) (Same : σ → σ → Prop) (p : Pool ι Op Ans A σ)
    (q : Pool κ Op Ans A σ) : Prop where
  same : Same p.shared q.shared
  threads : ∀ {i t}, part i = some t → p.threads i = q.threads t
  log : partLog part p.log = q.log

/-- **A part on its own**: the programs of the part are answered alike in states that are the same
to them, and leave such states; the other programs leave the state the same to the part. The pool
starts in `s`, the part alone in `s'`. -/
structure OnItsOwn (H : Handler Op Ans σ) (s : σ) (threads : ι → Prog Op Ans A) (s' : σ)
    (threads' : κ → Prog Op Ans A) (part : ι → Option κ) (Same : σ → σ → Prop) : Prop where
  inj : ∀ {i j t}, part i = some t → part j = some t → i = j
  begins : ∀ {i t}, part i = some t → threads i = threads' t
  start : Same s s'
  mine : ∀ {p q i t op k}, Reached H s threads p → Reached H s' threads' q →
    Same p.shared q.shared → part i = some t → p.threads i = .vis op k → q.threads t = .vis op k →
      (H op p.shared).1 = (H op q.shared).1 ∧ Same (H op p.shared).2 (H op q.shared).2
  others : ∀ {p i op k} {r : σ}, Reached H s threads p → Same p.shared r → part i = none →
    p.threads i = .vis op k → Same (H op p.shared).2 r

namespace OnItsOwn

variable {op : Op} {k : Ans op → Prog Op Ans A} (h : OnItsOwn H s threads s' threads' part Same)

include h

/-- A step of the part. -/
theorem projects_mine (hp : Reached H s threads p) (hq : Reached H s' threads' q)
    (hpq : Projects part Same p q) (hi : part i = some t) (hop : p.threads i = .vis op k) :
    Projects part Same (p.perform H i op k) (q.perform H t op k) := by
  have hop' : q.threads t = .vis op k := (hpq.threads hi).symm.trans hop
  obtain ⟨hanswer, hsame⟩ := h.mine hp hq hpq.same hi hop hop'
  refine ⟨hsame, fun {j u} hj => ?_, ?_⟩
  · by_cases hji : j = i
    · subst hji
      cases hi.symm.trans hj
      rw [perform_threads_self, perform_threads_self, hanswer]
    · have hut : u ≠ t := by
        rintro rfl
        exact hji (h.inj hj hi)
      rw [perform_threads_of_ne _ _ _ _ hji, perform_threads_of_ne _ _ _ _ hut, hpq.threads hj]
  · rw [perform_log, perform_log, partLog_snoc, hpq.log]
    simp only [hi, Option.map_some, Option.toList_some, hanswer]

/-- A step of another program. -/
theorem projects_others (hp : Reached H s threads p) (hpq : Projects part Same p q)
    (hi : part i = none) (hop : p.threads i = .vis op k) :
    Projects part Same (p.perform H i op k) q := by
  refine ⟨h.others hp hpq.same hi hop, fun {j u} hj => ?_, ?_⟩
  · have hji : j ≠ i := by
      rintro rfl
      cases hi.symm.trans hj
    rw [perform_threads_of_ne _ _ _ _ hji, hpq.threads hj]
  · rw [perform_log, partLog_snoc, hpq.log]
    simp only [hi, Option.map_none, Option.toList_none, List.append_nil]

/-- One step of the schedule. -/
theorem projects_step (hp : Reached H s threads p) (hq : Reached H s' threads' q)
    (hpq : Projects part Same p q) (i : ι) :
    Projects part Same (p.step H i) (q.run H (part i).toList) := by
  cases hop : p.threads i with
  | ret a =>
    rw [step_of_ret hop]
    cases hi : part i with
    | none => exact hpq
    | some t =>
      have hop' : q.threads t = .ret a := (hpq.threads hi).symm.trans hop
      rw [Option.toList_some, run_cons, run_nil, step_of_ret hop']
      exact hpq
  | vis op k =>
    rw [step_of_vis hop]
    cases hi : part i with
    | none => exact h.projects_others hp hpq hi hop
    | some t =>
      have hop' : q.threads t = .vis op k := (hpq.threads hi).symm.trans hop
      rw [Option.toList_some, run_cons, run_nil, step_of_vis hop']
      exact h.projects_mine hp hq hpq hi hop

/-- **A part runs as though alone.** -/
theorem run (schedule : List ι) :
    Projects part Same ((Pool.start s threads).run H schedule)
      ((Pool.start s' threads').run H (schedule.filterMap part)) := by
  induction schedule using List.reverseRecOn with
  | nil => exact ⟨h.start, fun hi => h.begins hi, rfl⟩
  | append_singleton schedule i ih =>
    have hlast : [i].filterMap part = (part i).toList := by
      cases hi : part i <;> simp [hi]
    rw [List.filterMap_append, hlast, run_append, run_append]
    exact h.projects_step ⟨schedule, rfl⟩ ⟨_, rfl⟩ ih i

end OnItsOwn

/-! ## Programs and states -/

/-- Where a pool goes does not depend on its log. -/
theorem run_congr {p p' : Pool ι Op Ans A σ} (hshared : p.shared = p'.shared)
    (hthreads : p.threads = p'.threads) (schedule : List ι) :
    (p.run H schedule).shared = (p'.run H schedule).shared ∧
      (p.run H schedule).threads = (p'.run H schedule).threads := by
  induction schedule generalizing p p' with
  | nil => exact ⟨hshared, hthreads⟩
  | cons i schedule ih =>
    rw [run_cons, run_cons]
    cases hi : p.threads i with
    | ret a =>
      rw [step_of_ret hi, step_of_ret (hthreads ▸ hi)]
      exact ih hshared hthreads
    | vis op k =>
      rw [step_of_vis hi, step_of_vis (hthreads ▸ hi)]
      refine ih ?_ ?_
      · rw [perform_shared, perform_shared, hshared]
      · simp only [perform, hshared, hthreads]

/-- A pool of one program is that program performed alone. -/
theorem run_alone {H : Handler Op Ans σ} {prog : Prog Op Ans A} {q : Pool κ Op Ans A σ}
    (h : Reached H s (fun _ => prog) q) (hone : ∀ x y : κ, x = y) {a : A} (ha : q.Finished t a) :
    prog.run H s = (a, q.shared) := by
  have hrest : prog.run H s = (q.threads t).run H q.shared := by
    refine h.induct (P := fun q => prog.run H s = (q.threads t).run H q.shared) rfl ?_
    intro p i op k _ hp hi
    obtain rfl := hone i t
    rw [hp, hi, perform_threads_self]
    rfl
  rw [hrest, ha]
  rfl

end ClawEngine.Core.Pool
