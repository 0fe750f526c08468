import ClawEngine.Core.Part
import ClawEngine.Laws.RunRace
import ClawEngine.Workflows.Tasks

/-!
# Runs in parallel

Any number of runs on the threads of an executor, their store operations interleaved in any order. A
task asks the store about its own run only, so the record of a run is what its own threads make of
it, whatever other runs do meanwhile. A task that ends leaves the record that `InlineExecutor`,
which performs one task after another, would have left; and threads that report progress for a run
race with its `_execute` alone, as they do where it is the only run.
-/

set_option autoImplicit false

namespace ClawEngine.Workflows

open ClawEngine.Core ClawEngine.Core.Act

variable {V Q ε A ι κ : Type}

/-! ## Programs on one run -/

/-- The program asks the store about one run only. What `get` answers is a record of that run. -/
inductive OnRun (runId : String) : StoreProg V A → Prop
  | ret (a : Except WorkflowError A) : OnRun runId (.ret a)
  | get {k : Except WorkflowError (WorkflowRun V) → StoreProg V A}
    (rest : ∀ answer, (∀ run, answer = .ok run → run.runId = runId) → OnRun runId (k answer)) :
    OnRun runId (.vis (.get runId) k)
  | save {run : WorkflowRun V} {k : Except WorkflowError Unit → StoreProg V A}
    (hid : run.runId = runId) (rest : ∀ answer, OnRun runId (k answer)) :
    OnRun runId (.vis (.save run) k)

section OnRun

variable {runId : String}

theorem OnRun.call_get {k : WorkflowRun V → StoreProg V A}
    (rest : ∀ run, run.runId = runId → OnRun runId (k run)) :
    OnRun runId (.call (.get runId) k) := by
  refine .get fun answer hanswer => ?_
  cases answer with
  | error e => exact .ret _
  | ok run => exact rest run (hanswer run rfl)

theorem OnRun.call_save {run : WorkflowRun V} {k : Unit → StoreProg V A} (hid : run.runId = runId)
    (rest : OnRun runId (k ())) : OnRun runId (.call (.save run) k) := by
  refine .save hid fun answer => ?_
  cases answer with
  | error e => exact .ret _
  | ok u => exact rest

theorem OnRun.update {change : WorkflowRun V → WorkflowRun V} {rest : StoreProg V Unit}
    (hchange : ∀ run, (change run).runId = run.runId) (hrest : OnRun runId rest) :
    OnRun runId (updateProg runId change rest) :=
  .call_get fun run hid => .call_save ((hchange run).trans hid) hrest

theorem finishWith_runId (outcome : Except HandlerError (Option V)) (now : PyFloat)
    (run : WorkflowRun V) : (finishWith outcome now run).runId = run.runId :=
  (finishWith_same outcome now run).runId.symm

theorem onRun_executeProg (outcome : Except HandlerError (Option V)) (started ended : PyFloat) :
    OnRun runId (executeProg runId outcome started ended) :=
  .update (fun _ => rfl) <| .call_get fun _ _ =>
    .update (finishWith_runId outcome ended) (.ret _)

theorem onRun_report (report : Report) : OnRun runId (report.prog runId : StoreProg V Unit) := by
  unfold Report.prog
  split
  · exact .ret _
  · exact .update (fun _ => rfl) (.ret _)

theorem onRun_performOp {answer : Q → ε → V × ε} {t : Task V Q ε} (op : ContextOp Q) (tick : Nat)
    (e : ε) {k : Except WorkflowError (op.Res V) → Nat → ε → StoreProg V Unit}
    (hk : ∀ answered tick e, OnRun t.uuid (k answered tick e)) :
    OnRun t.uuid (t.performOp answer op tick e k) := by
  cases op with
  | reportProgress message step fraction =>
    simp only [Task.performOp]
    split
    · exact hk _ _ _
    · refine .get fun got hgot => ?_
      cases got with
      | error exc => exact hk _ _ _
      | ok run => exact .save (hgot run rfl) fun _ => hk _ _ _
  | other question => exact hk _ _ _

theorem onRun_perform {answer : Q → ε → V × ε} {t : Task V Q ε} {rest : A → Nat → StoreProg V Unit}
    (hrest : ∀ a tick, OnRun t.uuid (rest a tick)) (p : ContextProg V Q A) (tick : Nat) (e : ε) :
    OnRun t.uuid (t.perform answer rest p tick e) := by
  induction p generalizing tick e with
  | ret a => exact hrest a tick
  | vis op k ih => exact onRun_performOp op tick e fun answered tick e => ih answered tick e

theorem onRun_task (answer : Q → ε → V × ε) (t : Task V Q ε) : OnRun t.uuid (t.prog answer) :=
  .call_save rfl <| .update (fun _ => rfl) <| .call_get fun _ _ =>
    onRun_perform (fun outcome _ => .update (finishWith_runId outcome _) (.ret _)) _ _ _

end OnRun

/-! ## Runs apart -/

section Apart

variable [DecidableEq ι] [DecidableEq κ] {threads : ι → StoreProg V A} {ids : ι → String}
  {store store' : MemoryWorkflowStore V}

/-- A program stays on its run. -/
theorem reached_onRun (hon : ∀ i, OnRun (ids i) (threads i))
    {p : Pool ι (StoreOp V) (fun op => Except WorkflowError op.Res) (Except WorkflowError A)
      (MemoryWorkflowStore V)} (hp : Pool.Reached memoryHandler store threads p) (i : ι) :
    OnRun (ids i) (p.threads i) := by
  refine hp.induct (P := fun p => ∀ i, OnRun (ids i) (p.threads i)) hon ?_ i
  intro p j op k _ hall hj i
  by_cases hij : i = j
  · subst hij
    have hnow := hall i
    rw [hj] at hnow
    rw [Pool.perform_threads_self]
    cases hnow with
    | get rest =>
      refine rest _ fun run hrun => ?_
      cases hget : p.shared.get? (ids i) with
      | none =>
        rw [memoryHandler_missing hget] at hrun
        cases hrun
      | some r =>
        rw [memoryHandler_found hget] at hrun
        cases hrun
        exact p.shared.keyed hget
    | save hid rest => exact rest _
  · rw [Pool.perform_threads_of_ne _ _ _ _ hij]
    exact hall i

/-- **The programs on a run keep to themselves.** -/
theorem onRun_onItsOwn (hon : ∀ i, OnRun (ids i) (threads i)) {runId : String}
    {part : ι → Option κ} {threads' : κ → StoreProg V A}
    (hinj : ∀ {i j t}, part i = some t → part j = some t → i = j)
    (hmine : ∀ {i t}, part i = some t → ids i = runId ∧ threads i = threads' t)
    (hothers : ∀ {i}, part i = none → ids i ≠ runId)
    (hstart : store.get? runId = store'.get? runId) :
    Pool.OnItsOwn memoryHandler store threads store' threads' part
      fun s s' => s.get? runId = s'.get? runId where
  inj := hinj
  begins h := (hmine h).2
  start := hstart
  mine {p q i t op _} hp hq hsame hi hop hop' := by
    have hprog := reached_onRun hon hp i
    rw [hop, (hmine hi).1] at hprog
    cases hprog with
    | get rest =>
      cases hget : p.shared.get? runId with
      | none =>
        rw [memoryHandler_missing hget, memoryHandler_missing (hsame ▸ hget)]
        exact ⟨rfl, hsame⟩
      | some r =>
        rw [memoryHandler_found hget, memoryHandler_found (hsame ▸ hget)]
        exact ⟨rfl, hsame⟩
    | @save run k hid rest =>
      refine ⟨rfl, ?_⟩
      show (p.shared.save run).get? runId = (q.shared.save run).get? runId
      rw [MemoryWorkflowStore.get?_save, MemoryWorkflowStore.get?_save, if_pos hid.symm,
        if_pos hid.symm]
  others {p i op _ r} hp hsame hi hop := by
    have hprog := reached_onRun hon hp i
    rw [hop] at hprog
    cases hprog with
    | get rest =>
      rw [← hsame]
      cases hget : p.shared.get? (ids i) with
      | none => rw [memoryHandler_missing hget]
      | some r => rw [memoryHandler_found hget]
    | @save run k hid rest =>
      show (p.shared.save run).get? runId = _
      rw [MemoryWorkflowStore.get?_save, if_neg, hsame]
      intro heq
      exact hothers hi (hid.symm.trans heq.symm)

/-- The record of a run that no program is on stays. -/
theorem onRun_elsewhere (hon : ∀ i, OnRun (ids i) (threads i)) {runId : String}
    (hid : ∀ i, ids i ≠ runId) (schedule : List ι) :
    ((Pool.start store threads).run memoryHandler schedule).shared.get? runId =
      store.get? runId := by
  have hown : Pool.OnItsOwn memoryHandler store threads store (nofun : Empty → StoreProg V A)
      (fun _ => none) fun s s' => s.get? runId = s'.get? runId :=
    onRun_onItsOwn hon nofun nofun (fun {i} _ => hid i) rfl
  have hnobody : schedule.filterMap (fun _ => (none : Option Empty)) = [] := by
    induction schedule with
    | nil => rfl
    | cons i schedule ih => exact ih
  have hprojects := hown.run schedule
  rw [hnobody] at hprojects
  exact hprojects.same

end Apart

/-! ## A task alone -/

section Alone

variable {S : WorkflowService V Q ε} {ex : String → WorkflowHandler V Q → Wf V ε Unit}
  {t : Task V Q ε} {w w' : WorkflowWorld V ε}

theorem performProg_vis (op : HandlerOp V Q) (answer : Except WorkflowError op.Res)
    {k : Except WorkflowError op.Res → HandlerProg V Q A}
    (h : performOp S ex op w = (answer.mapError .raised, w')) :
    performProg S ex (.vis op k) w = performProg S ex (k answer) w' := by
  rw [performProg, bind_of_ok (x := (performOp S ex op).attempt) (attempt_eq_ok.mpr h)]
  cases answer <;> rfl

theorem reportProgress_saves {runId message : String} {step : Option String}
    {fraction : Option PyFloat} {run : WorkflowRun V}
    (hfraction : fraction.filter (!isFraction ·) = none) (hrun : w.store.get? runId = some run) :
    reportProgress runId message step fraction w =
      (.ok (), ({ w with tick := w.tick + 2 } : WorkflowWorld V ε).saving
        (run.withProgress { message, step, fraction, ts := w.clock w.tick }
          (w.clock (w.tick + 1)))) := by
  simp only [reportProgress, hfraction]
  rw [bind_of_ok (getRun_found hrun)]
  rfl

/-- A handler performed at once returns, and the program of its thread goes on from there. -/
theorem perform_alone (ex : String → WorkflowHandler V Q → Wf V ε Unit) (p : ContextProg V Q A)
    (w : WorkflowWorld V ε) (hclock : w.clock = t.clock)
    (hthere : (w.store.get? t.uuid).isSome) :
    ∃ a w', performProg S ex (p.inRun t.uuid) w = (.ok a, w') ∧ w'.clock = t.clock ∧
      (w'.store.get? t.uuid).isSome ∧ ∀ rest : A → Nat → StoreProg V Unit,
        Prog.run memoryHandler (t.perform S.answer rest p w.tick w.surroundings) w.store =
          Prog.run memoryHandler (rest a w'.tick) w'.store := by
  induction p generalizing w with
  | ret a => exact ⟨a, w, rfl, hclock, hthere, fun _ => rfl⟩
  | vis op k ih =>
    cases op with
    | reportProgress message step fraction =>
      cases hfraction : fraction.filter (!isFraction ·) with
      | some x =>
        have hraised : reportProgress t.uuid message step fraction w =
            (.error (.raised (.fractionOutOfRange x)), w) := by
          simp only [reportProgress, hfraction]
          rfl
        obtain ⟨a, w', hperformed, hclock', hthere', hrest⟩ :=
          ih (.error (.fractionOutOfRange x)) w hclock hthere
        refine ⟨a, w', (performProg_vis (.reportProgress t.uuid message step fraction)
          (.error _) hraised).trans hperformed, hclock', hthere', fun rest => ?_⟩
        simp only [Task.perform, Task.performOp, hfraction]
        exact hrest rest
      | none =>
        obtain ⟨run, hrun⟩ := Option.isSome_iff_exists.mp hthere
        have hkey : run.runId = t.uuid := w.store.keyed hrun
        -- the report is saved as the thread's program saves it
        have hreported : reportProgress t.uuid message step fraction w =
            (.ok (), ({ w with tick := w.tick + 2 } : WorkflowWorld V ε).saving
              (run.withProgress { message, step, fraction, ts := t.clock w.tick }
                (t.clock (w.tick + 1)))) := by
          rw [← hclock]
          exact reportProgress_saves hfraction hrun
        generalize hw₁ : ({ w with tick := w.tick + 2 } : WorkflowWorld V ε).saving
          (run.withProgress { message, step, fraction, ts := t.clock w.tick }
            (t.clock (w.tick + 1))) = w₁ at hreported
        have hthere₁ : (w₁.store.get? t.uuid).isSome := by
          rw [← hw₁, get?_saving]
          exact Option.isSome_iff_exists.mpr ⟨_, if_pos hkey.symm⟩
        obtain ⟨a, w', hperformed, hclock', hthere', hrest⟩ :=
          ih (.ok ()) w₁ (by rw [← hw₁]; exact hclock) hthere₁
        refine ⟨a, w', (performProg_vis (.reportProgress t.uuid message step fraction)
          (.ok ()) hreported).trans hperformed, hclock', hthere',
          fun rest => ?_⟩
        rw [← hrest rest, ← hw₁]
        simp only [Task.perform, Task.performOp, hfraction, Prog.run_vis, memoryHandler_found hrun]
        rfl
    | other question =>
      obtain ⟨a, w', hperformed, hclock', hthere', hrest⟩ :=
        ih (.ok (S.answer question w.surroundings).1)
          { w with surroundings := (S.answer question w.surroundings).2 } hclock hthere
      refine ⟨a, w', (performProg_vis (.other question) (.ok _) ?_).trans hperformed, hclock',
        hthere', fun rest => ?_⟩
      · rfl
      · simp only [Task.perform, Task.performOp]
        exact hrest rest

/-- **A task alone is `run` over `InlineExecutor`**: it ends, and leaves the record `run`
returns. -/
theorem task_alone (hreg : S.registry.get? t.name =
      some fun params runId => (t.handler params).inRun runId)
    (store : MemoryWorkflowStore V) (fuel : Nat) :
    ∃ r w', S.run (fuel + 1) t.name t.params t.rerunOf t.ownerWorkspaceId (t.world store) =
        (.ok r, w') ∧ (t.prog S.answer).run memoryHandler store = (.ok (), w'.store) ∧
      w'.store.get? t.uuid = some r := by
  generalize hw₁ : (t.world store).creating t.run = w₁
  have hget₁ : w₁.store.get? t.uuid = some t.run := by
    rw [← hw₁]
    exact (get?_saving _ _ _).trans (if_pos rfl)
  -- `_execute` says that the run is running
  have hstarted : updateRun t.uuid (fun run now => run.withStatus .running now) w₁ = _ :=
    updateRun_found hget₁
  generalize hw₂ : ({ w₁ with tick := w₁.tick + 1 } : WorkflowWorld V ε).saving _ = w₂ at hstarted
  have hget₂ : w₂.store.get? t.uuid = some (t.run.withStatus .running (t.clock 0)) := by
    rw [← hw₂, get?_saving, ← hw₁]
    exact if_pos rfl
  obtain ⟨outcome, w₃, hperformed, hclock₃, hthere₃, hrest⟩ := perform_alone (S := S)
    (S.execute fuel) (t.handler t.run.params) w₂ (by rw [← hw₂, ← hw₁]; rfl)
    (Option.isSome_iff_exists.mpr ⟨_, hget₂⟩)
  obtain ⟨r₃, hget₃⟩ := Option.isSome_iff_exists.mp hthere₃
  have hkey₃ : r₃.runId = t.uuid := w₃.store.keyed hget₃
  have hended : updateRun t.uuid (fun run now => finishWith outcome now run) w₃ = _ :=
    updateRun_found hget₃
  generalize hw₄ : ({ w₃ with tick := w₃.tick + 1 } : WorkflowWorld V ε).saving _ = w₄ at hended
  have hget₄ : w₄.store.get? t.uuid =
      some (finishWith outcome (w₃.clock w₃.tick) r₃) := by
    rw [← hw₄, get?_saving, finishWith_runId]
    exact if_pos hkey₃.symm
  refine ⟨_, w₄, ?_, ?_, hget₄⟩
  · rw [WorkflowService.run, runWith_created hreg]
    have hexecuted : S.execute (fuel + 1) t.uuid
        (fun params runId => (t.handler params).inRun runId) w₁ = (.ok (), w₄) := by
      show executeWith (performProg S (S.execute fuel)) t.uuid _ w₁ = _
      rw [executeWith, bind_of_ok hstarted, bind_of_ok (getRun_found hget₂)]
      refine (bind_of_ok hperformed).trans (Eq.trans ?_ hended)
      cases outcome <;> rfl
    show (S.execute (fuel + 1) t.uuid _ >>= fun _ => getRun t.uuid)
      ((t.world store).creating t.run) = _
    rw [hw₁, bind_of_ok hexecuted, getRun_found hget₄]
  · have hsaved : memoryHandler (.save t.run) store = (.ok (), w₁.store) := by
      rw [← hw₁]
      rfl
    have hrunning : memoryHandler (.save (t.run.withStatus .running (t.clock 0))) w₁.store =
        (.ok (), w₂.store) := by
      rw [← hw₂, ← hw₁]
      rfl
    have hfinished : memoryHandler (.save (finishWith outcome (t.clock w₃.tick) r₃)) w₃.store =
        (.ok (), w₄.store) := by
      rw [← hw₄, hclock₃]
      rfl
    have htick : w₂.tick = 1 ∧ w₂.surroundings = t.surroundings := by
      rw [← hw₂, ← hw₁]
      exact ⟨rfl, rfl⟩
    rw [htick.1, htick.2] at hrest
    rw [Task.prog, Prog.run_call_ok (R := StoreOp.Res) hsaved, updateProg,
      Prog.run_call_ok (R := StoreOp.Res) (memoryHandler_found hget₁),
      Prog.run_call_ok (R := StoreOp.Res) hrunning,
      Prog.run_call_ok (R := StoreOp.Res) (memoryHandler_found hget₂)]
    refine (hrest _).trans ?_
    rw [updateProg, Prog.run_call_ok (R := StoreOp.Res) (memoryHandler_found hget₃),
      Prog.run_call_ok (R := StoreOp.Res) hfinished]
    rfl

end Alone

section Tasks

variable [DecidableEq ι]

/-- **Tasks in parallel.** However the store operations of any number of runs on an executor's
threads interleave, a task that ended leaves the record that `run` over `InlineExecutor` returns,
and the runs of others stay as they were. -/
theorem tasks_in_parallel (S : WorkflowService V Q ε) (t : ι → Task V Q ε)
    (hreg : ∀ i, S.registry.get? (t i).name =
      some fun params runId => ((t i).handler params).inRun runId)
    (hids : Function.Injective fun i => (t i).uuid) (store : MemoryWorkflowStore V)
    (schedule : List ι) (fuel : Nat) :
    let p := (Pool.start store fun i => (t i).prog S.answer).run memoryHandler schedule
    (∀ i out, p.Finished i out → out = .ok () ∧ ∃ r w',
      S.run (fuel + 1) (t i).name (t i).params (t i).rerunOf (t i).ownerWorkspaceId
          ((t i).world store) = (.ok r, w') ∧
        p.shared.get? (t i).uuid = some r) ∧
      ∀ runId, (∀ i, (t i).uuid ≠ runId) → p.shared.get? runId = store.get? runId := by
  intro p
  have hon : ∀ i, OnRun (t i).uuid ((t i).prog S.answer) := fun i => onRun_task S.answer (t i)
  refine ⟨fun i out hend => ?_, fun runId hid => onRun_elsewhere hon hid schedule⟩
  have honly : ∀ {j u}, (if j = i then some () else none) = some u → j = i := by
    intro j u hj
    split at hj
    next h => exact h
    next => cases hj
  have hown : Pool.OnItsOwn memoryHandler store (fun i => (t i).prog S.answer) store
      (fun _ : Unit => (t i).prog S.answer) (fun j => if j = i then some () else none)
      fun s s' => s.get? (t i).uuid = s'.get? (t i).uuid :=
    onRun_onItsOwn hon (fun h h' => (honly h).trans (honly h').symm)
      (fun {j u} hj => by rw [honly hj]; exact ⟨rfl, rfl⟩)
      (fun {j} hj heq => by rw [if_pos (hids heq)] at hj; cases hj) rfl
  have hprojects := hown.run schedule
  have halone := Pool.run_alone (t := ()) ⟨_, rfl⟩ (fun _ _ => rfl)
    ((hprojects.threads (if_pos rfl)).symm.trans hend)
  obtain ⟨r, w', hserved, hprog, hget⟩ := task_alone (hreg i) store fuel
  rw [hprog] at halone
  obtain ⟨hout, hstore⟩ := Prod.mk.inj halone
  refine ⟨hout.symm, r, w', hserved, hprojects.same.trans ?_⟩
  rw [← hstore]
  exact hget

end Tasks

/-! ## Executions that race with their reports -/

section Executions

variable [DecidableEq ι] [DecidableEq κ]

/-- The threads of a run that is created: `run` saves its record before `_execute` is submitted. -/
def Execution.lane (X : Execution V κ) : Option κ → StoreProg V Unit
  | none => .call (.save X.run) fun _ => X.threads none
  | some i => X.threads (some i)

omit [DecidableEq κ] in
theorem Execution.onRun_lane (X : Execution V κ) (x : Option κ) : OnRun X.run.runId (X.lane x) := by
  cases x with
  | none => exact .call_save rfl (onRun_executeProg _ _ _)
  | some i => exact onRun_report _

/-- The threads of run `i`. -/
def laneOf (i : ι) (x : ι × Option κ) : Option (Option κ) := if x.1 = i then some x.2 else none

omit [DecidableEq κ] in
theorem laneOf_eq_some {i : ι} {x : ι × Option κ} {y : Option κ} :
    laneOf i x = some y ↔ x = (i, y) := by
  obtain ⟨j, z⟩ := x
  simp only [laneOf, Option.ite_none_right_eq_some, Option.some.injEq, Prod.mk.injEq]

omit [DecidableEq κ] in
theorem laneOf_eq_none {i : ι} {x : ι × Option κ} : laneOf i x = none ↔ x.1 ≠ i := by
  simp only [laneOf, ite_eq_right_iff, reduceCtorEq, imp_false, ne_eq]

/-- **Executions in parallel.** However the store operations of any number of runs interleave, with
those of threads that report their progress, a run that was created goes as it does where only its
own threads are: the same record, and the same threads ended in the same way. So what it has of
progress beyond its start are reports made for it, each that returned at most once, in the order
they were saved. -/
theorem executions_in_parallel (X : ι → Execution V κ)
    (hids : Function.Injective fun i => (X i).run.runId)
    (hpending : ∀ i, (X i).run.status = .pending) (store : MemoryWorkflowStore V)
    (schedule : List (ι × Option κ)) (i : ι) (rest : List (Option κ))
    (hcreated : schedule.filterMap (laneOf i) = none :: rest) :
    let p := (Pool.start store fun x : ι × Option κ => (X x.1).lane x.2).run memoryHandler schedule
    let q := ((X i).start store).run memoryHandler rest
    p.shared.get? (X i).run.runId = q.shared.get? (X i).run.runId ∧
      (∀ y out, p.Finished (i, y) out ↔ q.Finished y out) ∧
      ∃ r, p.shared.get? (X i).run.runId = some r ∧
        (savers q.log).Nodup ∧ (∀ j, j ∈ savers q.log ↔ p.Finished (i, some j) (.ok ())) ∧
        (X i).run.progress <+: r.progress ∧
        r.progress.Sublist
          ((X i).run.progress ++ (savers q.log).map fun j => ((X i).reports j).event) := by
  intro p q
  have hown : Pool.OnItsOwn memoryHandler store (fun x : ι × Option κ => (X x.1).lane x.2) store
      (X i).lane (laneOf i) fun s s' => s.get? (X i).run.runId = s'.get? (X i).run.runId :=
    onRun_onItsOwn (fun x => (X x.1).onRun_lane x.2)
      (fun h h' => (laneOf_eq_some.mp h).trans (laneOf_eq_some.mp h').symm)
      (fun {x y} hx => by rw [laneOf_eq_some.mp hx]; exact ⟨rfl, rfl⟩)
      (fun {x} hx heq => laneOf_eq_none.mp hx (hids heq)) rfl
  have hprojects := hown.run schedule
  rw [hcreated, Pool.run_cons] at hprojects
  -- the first of its own steps saves the record
  have hstored : ((Pool.start store (X i).lane).step memoryHandler none).shared =
      ((X i).start store).shared := rfl
  have hsaved : ((Pool.start store (X i).lane).step memoryHandler none).threads =
      ((X i).start store).threads := funext fun y => by cases y <;> rfl
  obtain ⟨hshared, hthreads⟩ := Pool.run_congr (H := memoryHandler) hstored hsaved rest
  have hget : p.shared.get? (X i).run.runId = q.shared.get? (X i).run.runId := by
    rw [show q.shared = _ from hshared.symm]
    exact hprojects.same
  have hends : ∀ y out, p.Finished (i, y) out ↔ q.Finished y out := by
    intro y out
    rw [Pool.Finished, Pool.Finished, show q.threads = _ from hthreads.symm,
      show p.threads (i, y) = _ from hprojects.threads (laneOf_eq_some.mpr rfl)]
  refine ⟨hget, hends, ?_⟩
  have hracing : Racing (X i) q := racing_run store (hpending i) rest
  obtain ⟨r, hr, hprogress, -⟩ := hracing.stored
  refine ⟨r, hget.trans hr, hracing.nodup, fun j => ?_, hprogress.start, hprogress.saved⟩
  rw [hends]
  exact hracing.saved_iff j

end Executions

/-! ## Two runs in lockstep -/

/-- A run of a handler that reports progress and succeeds. -/
def reportingTask (i : Bool) : Task Unit Unit Unit where
  name := "wf"
  uuid := if i then "r1" else "r2"
  handler _ := .vis (.reportProgress "half" none none) fun _ => .ret (.ok none)
  clock := .finite ∘ Nat.cast
  surroundings := ()

/-- The service that has the handler. -/
def reportingService : WorkflowService Unit Unit Unit where
  registry := (∅ : Dict String _).set "wf" fun params runId =>
    ((reportingTask true).handler params).inRun runId
  answer _ e := ((), e)

/-- Both leave what `InlineExecutor` would have. -/
theorem tasks_in_parallel_lockstep :
    let p := (Pool.start .empty fun i => (reportingTask i).prog reportingService.answer).run
      memoryHandler ((List.replicate 8 [true, false]).flatten)
    ∃ r w', reportingService.run 1 "wf" none none none ((reportingTask true).world .empty) =
        (.ok r, w') ∧ p.shared.get? "r1" = some r := by
  intro p
  obtain ⟨-, r, w', hserved, hget⟩ := (tasks_in_parallel reportingService reportingTask
    (fun i => by cases i <;> rfl) (Bool.injective_iff.mpr (by decide)) .empty
    ((List.replicate 8 [true, false]).flatten) 0).1 true (.ok ()) rfl
  exact ⟨r, w', hserved, hget⟩

/-- Two runs whose handlers make one report each. -/
def twoReports (i : Bool) : Execution Unit Unit :=
  { oneReport with run := { oneReport.run with runId := if i then "r1" else "r2" } }

/-- Created one after the other, and performed in lockstep, a run has its one report. -/
theorem executions_in_parallel_lockstep :
    let p := (Pool.start .empty fun x : Bool × Option Unit => (twoReports x.1).lane x.2).run
      memoryHandler ([none, none, none, none, some (), some (), none, none].flatMap fun y =>
        [(true, y), (false, y)])
    ∃ (r : WorkflowRun Unit) (order : List Unit), p.shared.get? "r1" = some r ∧
      () ∈ order ∧ r.progress.Sublist (order.map fun _ => (oneReport.reports ()).event) := by
  intro p
  obtain ⟨-, -, r, hr, -, hends, -, hprogress⟩ := executions_in_parallel twoReports
    (Bool.injective_iff.mpr (by decide)) (fun _ => rfl) .empty
    ([none, none, none, none, some (), some (), none, none].flatMap fun y =>
      [(true, y), (false, y)]) true [none, none, none, some (), some (), none, none] (by decide)
  exact ⟨r, _, hr, (hends ()).mpr rfl, hprogress⟩

end ClawEngine.Workflows
