import ClawEngine.Core.Pool
import ClawEngine.Laws.RunLifecycle
import ClawEngine.Workflows.Updates
import Mathlib.Data.Fintype.Card

/-!
# Reports racing with `_execute`

`_execute` of a run and any number of `report_progress` calls for it, their store operations
interleaved in any order. A thread between its `get` and its `save` holds a record; what it saves is
made from that record, so a save by another thread in between is lost. Where none falls in between
(`Undisturbed`), every report whose call returned is in the record, and an outcome stays.
-/

set_option autoImplicit false

namespace ClawEngine.Workflows

open ClawEngine.Core ClawEngine.Core.Act

/-- `_execute` (thread `none`) and the calls of `report_progress`, over one store. -/
abbrev RunPool (V κ : Type) : Type :=
  Pool (Option κ) (StoreOp V) (fun op => Except WorkflowError op.Res) (Except WorkflowError Unit)
    (MemoryWorkflowStore V)

/-- One store operation of a thread. -/
abbrev RunEvent (V κ : Type) : Type :=
  Event (Option κ) (StoreOp V) fun op => Except WorkflowError op.Res

variable {V κ : Type}

/-- The report an event is the save of. -/
def saver (e : RunEvent V κ) : Option κ :=
  match e.op with
  | .get _ => none
  | .save _ => e.thread

/-- The reports saved, in this order. -/
def savers (log : List (RunEvent V κ)) : List κ := log.filterMap saver

/-- A run about to be executed: its record, the reports its handler will make, how the handler will
end, and the times. -/
structure Execution (V κ : Type) where
  run : WorkflowRun V
  reports : κ → Report
  outcome : Except HandlerError (Option V)
  started : PyFloat
  ended : PyFloat

namespace Execution

variable (X : Execution V κ)

/-- The threads. -/
def threads : Option κ → StoreProg V Unit
  | none => executeProg X.run.runId X.outcome X.started X.ended
  | some i => (X.reports i).prog X.run.runId

/-- The progress there is when no report is lost. -/
def allProgress (log : List (RunEvent V κ)) : List ProgressEvent :=
  X.run.progress ++ (savers log).map fun i => (X.reports i).event

/-- The progress is what there was at the start, and then events of reports that were saved, each
once and in the order of the saves. Some may be missing. -/
structure Reported (log : List (RunEvent V κ)) (progress : List ProgressEvent) : Prop where
  start : X.run.progress <+: progress
  saved : progress.Sublist (X.allProgress log)

end Execution

/-- What a thread holds: a record it got, which is the one stored unless someone saved since. -/
structure Held (X : Execution V κ) (p : RunPool V κ) (i : Option κ) (x : WorkflowRun V) : Prop where
  runId : x.runId = X.run.runId
  progress : X.Reported p.log x.progress
  current : Pool.Current StoreOp.Saves p.log i → p.shared.get? X.run.runId = some x

/-- Where a report is. -/
inductive ReportStage (X : Execution V κ) (p : RunPool V κ) (i : κ) : StoreProg V Unit → Prop
  | waiting (unsaved : i ∉ savers p.log) :
    ReportStage X p i (updateProg X.run.runId
      (·.withProgress (X.reports i).event (X.reports i).now) (.ret (.ok ())))
  | holding {x : WorkflowRun V} (unsaved : i ∉ savers p.log) (held : Held X p (some i) x) :
    ReportStage X p i (.call (.save (x.withProgress (X.reports i).event (X.reports i).now))
      fun _ => .ret (.ok ()))
  | saved (saved : i ∈ savers p.log) : ReportStage X p i (.ret (.ok ()))
  | refused {e : WorkflowError} (unsaved : i ∉ savers p.log) : ReportStage X p i (.ret (.error e))

/-- `_execute` after its first `get`. -/
def executeSaving (X : Execution V κ) (x : WorkflowRun V) : StoreProg V Unit :=
  .call (.save (x.withStatus .running X.started)) fun _ => .call (.get X.run.runId) fun _ =>
    updateProg X.run.runId (finishWith X.outcome X.ended) (.ret (.ok ()))

/-- Where `_execute` is, and what the record then says. -/
inductive ExecuteStage (X : Execution V κ) (p : RunPool V κ) :
    StoreProg V Unit → (WorkflowRun V → Prop) → Prop
  | created : ExecuteStage X p (X.threads none) (·.status = .pending)
  | starting {x : WorkflowRun V} (held : Held X p none x) :
    ExecuteStage X p (executeSaving X x) (·.status = .pending)
  | started : ExecuteStage X p (.call (.get X.run.runId) fun _ =>
      updateProg X.run.runId (finishWith X.outcome X.ended) (.ret (.ok ()))) (·.status = .running)
  | handling : ExecuteStage X p
      (updateProg X.run.runId (finishWith X.outcome X.ended) (.ret (.ok ()))) (·.status = .running)
  | ending {x : WorkflowRun V} (held : Held X p none x) :
    ExecuteStage X p (.call (.save (finishWith X.outcome X.ended x)) fun _ => .ret (.ok ()))
      (·.status = .running)
  | ended : ExecuteStage X p (.ret (.ok ())) fun r => Kept (finishWith X.outcome X.ended r) r

/-- Every thread is at one of its stages, and the record stored has no progress but what was
reported; with no save in between, it has all of it. -/
structure Racing (X : Execution V κ) (p : RunPool V κ) : Prop where
  nodup : (savers p.log).Nodup
  stored : ∃ r, p.shared.get? X.run.runId = some r ∧
    X.Reported p.log r.progress ∧
    (Pool.Undisturbed StoreOp.Saves p.log → r.progress = X.allProgress p.log)
  reports : ∀ i, ReportStage X p i (p.threads (some i))
  execute : ∃ want, ExecuteStage X p (p.threads none) want ∧
    (Pool.Undisturbed StoreOp.Saves p.log → ∀ r, p.shared.get? X.run.runId = some r → want r)

section Stages

variable {X : Execution V κ} {p p' : RunPool V κ} {i : Option κ} {x r r' : WorkflowRun V}

theorem finishWith_same (outcome : Except HandlerError (Option V)) (now : PyFloat)
    (r : WorkflowRun V) : SameRun (finishWith outcome now r) r := by
  cases outcome <;> exact ⟨rfl, rfl, rfl, rfl, List.prefix_refl _⟩

theorem finishWith_progress (outcome : Except HandlerError (Option V)) (now : PyFloat)
    (r : WorkflowRun V) : (finishWith outcome now r).progress = r.progress := by
  cases outcome <;> rfl

theorem finishWith_again (outcome : Except HandlerError (Option V)) (now : PyFloat)
    (r : WorkflowRun V) :
    Kept (finishWith outcome now (finishWith outcome now r)) (finishWith outcome now r) :=
  ⟨finishWith_same _ _ _, by cases outcome <;> rfl, by cases outcome <;> rfl,
    by cases outcome <;> rfl⟩

theorem finishWith_kept (outcome : Except HandlerError (Option V)) (now : PyFloat)
    (h : Kept r r') : Kept (finishWith outcome now r) (finishWith outcome now r') := by
  cases outcome with
  | error exc => exact ⟨⟨h.runId, h.name, h.rerunOf, h.owner, h.progress⟩, rfl, rfl, rfl⟩
  | ok result => exact ⟨⟨h.runId, h.name, h.rerunOf, h.owner, h.progress⟩, rfl, rfl, rfl⟩

/-- Progress does not change what a stage wants of the record. -/
theorem ExecuteStage.want_kept {q : StoreProg V Unit} {want : WorkflowRun V → Prop}
    (h : ExecuteStage X p q want) (hr : want r) (hkept : Kept r r') : want r' := by
  cases h with
  | created => exact hkept.status.trans hr
  | starting _ => exact hkept.status.trans hr
  | started => exact hkept.status.trans hr
  | handling => exact hkept.status.trans hr
  | ending _ => exact hkept.status.trans hr
  | ended =>
    have hfinish : Kept (finishWith X.outcome X.ended r) r' := Kept.trans hr hkept
    have hstatus : (finishWith X.outcome X.ended r').status =
        (finishWith X.outcome X.ended r).status := (finishWith_kept _ _ hkept).status
    refine ⟨?_, hfinish.status.trans hstatus.symm,
      hfinish.result.trans (finishWith_kept _ _ hkept).result.symm,
      hfinish.error.trans (finishWith_kept _ _ hkept).error.symm⟩
    exact finishWith_same X.outcome X.ended r'

/-- What a step of another thread means for thread `i`. -/
structure Passes (i : Option κ) (p p' : RunPool V κ) : Prop where
  savers : ∃ m, savers p'.log = savers p.log ++ m ∧ ∀ j, i = some j → j ∉ m
  current : Pool.Current StoreOp.Saves p'.log i →
    Pool.Current StoreOp.Saves p.log i ∧ p'.shared = p.shared

theorem savers_snoc (log : List (RunEvent V κ)) (e : RunEvent V κ) :
    savers (log ++ [e]) = savers log ++ (saver e).toList := by
  rw [savers, List.filterMap_append]
  cases h : saver e <;> simp [savers, h]

theorem allProgress_append {log log' : List (RunEvent V κ)} {m : List κ}
    (h : savers log' = savers log ++ m) :
    X.allProgress log' = X.allProgress log ++ m.map fun i => (X.reports i).event := by
  rw [Execution.allProgress, Execution.allProgress, h, List.map_append, List.append_assoc]

/-- Reports that are saved later may come after what is there. -/
theorem Execution.Reported.mono {log log' : List (RunEvent V κ)} {progress : List ProgressEvent}
    (h : X.Reported log progress) {m : List κ} (hm : savers log' = savers log ++ m) :
    X.Reported log' progress where
  start := h.start
  saved := by
    rw [allProgress_append hm]
    exact h.saved.trans (List.sublist_append_left _ _)

/-- The event of a report that is saved comes after what is there. -/
theorem Execution.Reported.append {log log' : List (RunEvent V κ)} {progress : List ProgressEvent}
    (h : X.Reported log progress) {m : List κ} (hm : savers log' = savers log ++ m) :
    X.Reported log' (progress ++ m.map fun i => (X.reports i).event) where
  start := h.start.trans (List.prefix_append _ _)
  saved := by
    rw [allProgress_append hm]
    exact h.saved.append_right _

theorem Held.mono (h : Held X p i x) (hpass : Passes i p p') : Held X p' i x where
  runId := h.runId
  progress := by
    obtain ⟨m, hm, -⟩ := hpass.savers
    exact h.progress.mono hm
  current hcur := by
    obtain ⟨hcur', hshared⟩ := hpass.current hcur
    rw [hshared]
    exact h.current hcur'

theorem ReportStage.mono {j : κ} {q : StoreProg V Unit} (h : ReportStage X p j q)
    (hpass : Passes (some j) p p') : ReportStage X p' j q := by
  obtain ⟨m, hm, hnot⟩ := hpass.savers
  have hunsaved : j ∉ savers p.log → j ∉ savers p'.log := by
    intro hj hmem
    rw [hm] at hmem
    exact (List.mem_append.mp hmem).elim hj (hnot j rfl)
  cases h with
  | waiting unsaved => exact .waiting (hunsaved unsaved)
  | holding unsaved held => exact .holding (hunsaved unsaved) (held.mono hpass)
  | saved saved => exact .saved (by rw [hm]; exact List.mem_append_left _ saved)
  | refused unsaved => exact .refused (hunsaved unsaved)

theorem ExecuteStage.mono {q : StoreProg V Unit} {want : WorkflowRun V → Prop}
    (h : ExecuteStage X p q want) (hpass : Passes none p p') : ExecuteStage X p' q want := by
  cases h with
  | created => exact .created
  | starting held => exact .starting (held.mono hpass)
  | started => exact .started
  | handling => exact .handling
  | ending held => exact .ending (held.mono hpass)
  | ended => exact .ended

end Stages

/-! ## One operation -/

section Steps

variable [DecidableEq κ] {X : Execution V κ} {p : RunPool V κ} {i j : Option κ}
  {x r : WorkflowRun V} {op : StoreOp V}
  {k : Except WorkflowError op.Res → StoreProg V Unit}

/-- A step of one thread passes the others by. -/
theorem passes_perform (hne : j ≠ i) : Passes j p (p.perform memoryHandler i op k) where
  savers := by
    rw [Pool.perform_log, savers_snoc]
    refine ⟨_, rfl, fun j' hj hmem => ?_⟩
    subst hj
    cases op with
    | get runId => exact absurd hmem List.not_mem_nil
    | save run =>
      have hsaver : (i : Option κ) = some j' := Option.mem_toList.mp hmem
      exact hne hsaver.symm
  current hcur := by
    rw [Pool.perform_log] at hcur
    obtain ⟨hcur', hwrites⟩ := hcur.of_snoc (Ne.symm hne)
    refine ⟨hcur', ?_⟩
    cases op with
    | get runId =>
      rw [Pool.perform_shared, memoryHandler]
      split <;> rfl
    | save run => exact absurd trivial hwrites

/-- What a thread holds after its `get`. -/
theorem held_get {k : Except WorkflowError (WorkflowRun V) → StoreProg V Unit}
    (hid : r.runId = X.run.runId) (hr : p.shared.get? X.run.runId = some r)
    (hprogress : X.Reported p.log r.progress) :
    Held X (p.perform memoryHandler i (.get X.run.runId) k) i r where
  runId := hid
  progress := hprogress.mono (savers_snoc _ _)
  current _ := by
    rw [Pool.perform_shared, memoryHandler_found hr]
    exact hr

/-- The thread that moved is at its stage, the others are where they were. -/
theorem Racing.reports_perform (h : Racing X p)
    (hmoved : ∀ j, i = some j → ReportStage X (p.perform memoryHandler i op k) j
      (k (memoryHandler op p.shared).1)) (j : κ) :
    ReportStage X (p.perform memoryHandler i op k) j
      ((p.perform memoryHandler i op k).threads (some j)) := by
  by_cases hij : some j = i
  · subst hij
    rw [Pool.perform_threads_self]
    exact hmoved j rfl
  · rw [Pool.perform_threads_of_ne _ _ _ _ hij]
    exact (h.reports j).mono (passes_perform hij)

/-- After a `get`. -/
theorem Racing.get {k : Except WorkflowError (WorkflowRun V) → StoreProg V Unit} (h : Racing X p)
    (hr : p.shared.get? X.run.runId = some r)
    (hmoved : ∀ j, i = some j →
      ReportStage X (p.perform memoryHandler i (.get X.run.runId) k) j (k (.ok r)))
    (hexecute : i = none → ∃ want,
      ExecuteStage X (p.perform memoryHandler i (.get X.run.runId) k) (k (.ok r)) want ∧
        (Pool.Undisturbed StoreOp.Saves p.log → want r)) :
    Racing X (p.perform memoryHandler i (.get X.run.runId) k) := by
  have hanswer := memoryHandler_found hr
  have hsavers : savers (p.perform memoryHandler i (.get X.run.runId) k).log = savers p.log :=
    (savers_snoc _ _).trans (List.append_nil _)
  have hshared : (p.perform memoryHandler i (.get X.run.runId) k).shared = p.shared := by
    rw [Pool.perform_shared, hanswer]
  obtain ⟨r', hr', hprogress, hall⟩ := h.stored
  have hleft : Pool.Undisturbed StoreOp.Saves
      (p.perform memoryHandler i (.get X.run.runId) k).log →
        Pool.Undisturbed StoreOp.Saves p.log := Pool.Undisturbed.left
  refine ⟨by rw [hsavers]; exact h.nodup, ⟨r', ?_⟩, ?_, ?_⟩
  · rw [hshared, Execution.allProgress, hsavers]
    exact ⟨hr', hprogress.mono (hsavers.trans (List.append_nil _).symm),
      fun hund => hall (hleft hund)⟩
  · refine h.reports_perform fun j hj => ?_
    rw [hanswer]
    exact hmoved j hj
  · rw [hshared]
    by_cases hi : none = i
    · subst hi
      rw [Pool.perform_threads_self, hanswer]
      obtain ⟨want, hstage, hwant⟩ := hexecute rfl
      refine ⟨want, hstage, fun hund y hy => ?_⟩
      rw [hr] at hy
      cases hy
      exact hwant (hleft hund)
    · rw [Pool.perform_threads_of_ne _ _ _ _ hi]
      obtain ⟨want, hstage, hwant⟩ := h.execute
      exact ⟨want, hstage.mono (passes_perform hi), fun hund => hwant (hleft hund)⟩

/-- After a `save` of what was made from the record the thread held. -/
theorem Racing.save {y : WorkflowRun V} {k : Except WorkflowError Unit → StoreProg V Unit}
    (h : Racing X p) (hheld : Held X p i x) (hid : y.runId = x.runId)
    (hunsaved : ∀ j, i = some j → j ∉ savers p.log)
    (hprogress : y.progress = x.progress ++ i.toList.map fun j => (X.reports j).event)
    (hmoved : ∀ j, i = some j →
      ReportStage X (p.perform memoryHandler i (.save y) k) j (k (.ok ())))
    (hkept : i ≠ none → Kept x y)
    (hexecute : i = none → ∃ want,
      ExecuteStage X (p.perform memoryHandler i (.save y) k) (k (.ok ())) want ∧
        (Pool.Undisturbed StoreOp.Saves p.log → p.shared.get? X.run.runId = some x → want y)) :
    Racing X (p.perform memoryHandler i (.save y) k) := by
  have hsavers : savers (p.perform memoryHandler i (.save y) k).log =
      savers p.log ++ i.toList := savers_snoc _ _
  have hget : (p.perform memoryHandler i (.save y) k).shared.get? X.run.runId = some y := by
    rw [Pool.perform_shared]
    show (p.shared.save y).get? X.run.runId = some y
    rw [MemoryWorkflowStore.get?_save, hid, hheld.runId, if_pos rfl]
  -- undisturbed, the thread still holds the record that is stored
  have hund : Pool.Undisturbed StoreOp.Saves (p.perform memoryHandler i (.save y) k).log →
      Pool.Undisturbed StoreOp.Saves p.log ∧ p.shared.get? X.run.runId = some x :=
    fun hund => ⟨hund.left, hheld.current (hund.last trivial)⟩
  refine ⟨?_, ⟨y, hget, ?_, ?_⟩, h.reports_perform hmoved, ?_⟩
  · rw [hsavers]
    refine h.nodup.append (by cases i <;> simp) ?_
    intro j hj hj'
    exact hunsaved j (Option.mem_toList.mp hj') hj
  · rw [hprogress]
    exact hheld.progress.append hsavers
  · intro hu
    obtain ⟨hund', hx⟩ := hund hu
    obtain ⟨r', hr', -, hall⟩ := h.stored
    rw [hx] at hr'
    cases hr'
    rw [allProgress_append hsavers, hprogress, hall hund']
  · by_cases hi : none = i
    · subst hi
      rw [Pool.perform_threads_self]
      obtain ⟨want, hstage, hwant⟩ := hexecute rfl
      refine ⟨want, hstage, fun hu z hz => ?_⟩
      rw [hget] at hz
      cases hz
      exact hwant (hund hu).1 (hund hu).2
    · rw [Pool.perform_threads_of_ne _ _ _ _ hi]
      obtain ⟨want, hstage, hwant⟩ := h.execute
      refine ⟨want, hstage.mono (passes_perform hi), fun hu z hz => ?_⟩
      rw [hget] at hz
      cases hz
      exact hstage.want_kept (hwant (hund hu).1 x (hund hu).2) (hkept (Ne.symm hi))

/-- **One operation keeps the race.** -/
theorem Racing.perform (h : Racing X p) (hi : p.threads i = .vis op k) :
    Racing X (p.perform memoryHandler i op k) := by
  obtain ⟨r, hr, hprogress, -⟩ := h.stored
  have hrid : r.runId = X.run.runId := p.shared.keyed hr
  cases i with
  | some j =>
    have hstage := h.reports j
    rw [hi] at hstage
    cases hstage with
    | waiting unsaved =>
      refine h.get hr (fun j' hj => ?_) nofun
      cases hj
      refine .holding ?_ (held_get hrid hr hprogress)
      rw [Pool.perform_log, savers_snoc]
      exact fun hmem => (List.mem_append.mp hmem).elim unsaved List.not_mem_nil
    | @holding x unsaved held =>
      refine h.save held rfl (fun j' hj => ?_) rfl (fun j' hj => ?_)
        (fun _ => withProgress_kept x _ _) nofun
      · cases hj
        exact unsaved
      · cases hj
        refine .saved ?_
        rw [Pool.perform_log, savers_snoc]
        exact List.mem_append_right _ List.mem_cons_self
  | none =>
    obtain ⟨want, hstage, hwant⟩ := h.execute
    rw [hi] at hstage
    cases hstage with
    | created =>
      exact h.get hr nofun fun _ => ⟨_, .starting (held_get hrid hr hprogress), fun hu => hwant hu r hr⟩
    | @starting x held =>
      exact h.save held rfl nofun (List.append_nil _).symm nofun (fun hne => absurd rfl hne)
        fun _ => ⟨_, .started, fun _ _ => rfl⟩
    | started => exact h.get hr nofun fun _ => ⟨_, .handling, fun hu => hwant hu r hr⟩
    | handling =>
      exact h.get hr nofun fun _ => ⟨_, .ending (held_get hrid hr hprogress), fun hu => hwant hu r hr⟩
    | @ending x held =>
      refine h.save held (finishWith_same _ _ x).runId.symm nofun ?_ nofun
        (fun hne => absurd rfl hne) fun _ => ⟨_, .ended, fun _ _ => finishWith_again _ _ x⟩
      exact (finishWith_progress _ _ x).trans (List.append_nil _).symm

end Steps

/-! ## All interleavings -/

section Runs

variable [DecidableEq κ] {X : Execution V κ}

/-- Before the first operation: the run is stored as it was created. -/
def Execution.start (X : Execution V κ) (store : MemoryWorkflowStore V) : RunPool V κ :=
  Pool.start (store.save X.run) X.threads

omit [DecidableEq κ] in
theorem racing_start (store : MemoryWorkflowStore V) (hs : X.run.status = .pending) :
    Racing X (X.start store) where
  nodup := List.nodup_nil
  stored := by
    refine ⟨X.run, ?_, ?_, fun _ => (List.append_nil _).symm⟩
    · show (store.save X.run).get? X.run.runId = _
      rw [MemoryWorkflowStore.get?_save, if_pos rfl]
    · exact ⟨List.prefix_refl _, List.sublist_append_left _ _⟩
  reports i := by
    show ReportStage X (X.start store) i ((X.reports i).prog X.run.runId)
    have hnone : i ∉ savers (X.start store).log := List.not_mem_nil
    unfold Report.prog
    split
    next => exact .refused hnone
    next => exact .waiting hnone
  execute := by
    refine ⟨_, .created, fun _ r hr => ?_⟩
    have hget : (store.save X.run).get? X.run.runId = some r := hr
    rw [MemoryWorkflowStore.get?_save, if_pos rfl] at hget
    cases hget
    exact hs

theorem racing_run (store : MemoryWorkflowStore V) (hs : X.run.status = .pending)
    (schedule : List (Option κ)) : Racing X ((X.start store).run memoryHandler schedule) :=
  Pool.run_induct (fun _ _ _ _ h hi => h.perform hi) (racing_start store hs) schedule

omit [DecidableEq κ] in
/-- The reports whose call returned are those that were saved. -/
theorem Racing.saved_iff {p : RunPool V κ} (h : Racing X p) (i : κ) :
    i ∈ savers p.log ↔ p.Finished (some i) (.ok ()) := by
  have hstage := h.reports i
  unfold Pool.Finished
  generalize p.threads (some i) = q at hstage
  cases hstage with
  | waiting unsaved => exact ⟨fun hmem => absurd hmem unsaved, nofun⟩
  | holding unsaved held => exact ⟨fun hmem => absurd hmem unsaved, nofun⟩
  | saved saved => exact ⟨fun _ => rfl, fun _ => saved⟩
  | refused unsaved => exact ⟨fun hmem => absurd hmem unsaved, nofun⟩

omit [DecidableEq κ] in
/-- Undisturbed, the record is terminal once `_execute` is through, with its outcome. -/
theorem Racing.terminal {p : RunPool V κ} (h : Racing X p)
    (hund : Pool.Undisturbed StoreOp.Saves p.log) {r : WorkflowRun V}
    (hr : p.shared.get? X.run.runId = some r) (hterm : r.status.isTerminal = true) :
    p.Finished none (.ok ()) ∧ Kept (finishWith X.outcome X.ended r) r := by
  obtain ⟨want, hstage, hwant⟩ := h.execute
  have hr' := hwant hund r hr
  unfold Pool.Finished
  generalize p.threads none = q at hstage
  have hwaits : ∀ s : WorkflowStatus, r.status = s → s.isTerminal = false → False := by
    intro s hs hnot
    rw [hs, hnot] at hterm
    cases hterm
  cases hstage with
  | created => exact (hwaits _ hr' rfl).elim
  | starting _ => exact (hwaits _ hr' rfl).elim
  | started => exact (hwaits _ hr' rfl).elim
  | handling => exact (hwaits _ hr' rfl).elim
  | ending _ => exact (hwaits _ hr' rfl).elim
  | ended => exact ⟨rfl, hr'⟩

omit [DecidableEq κ] in
/-- Once `_execute` is through, the record is terminal with its outcome, if undisturbed. -/
theorem Racing.outcome {p : RunPool V κ} (h : Racing X p)
    (hund : Pool.Undisturbed StoreOp.Saves p.log) (hdone : p.Finished none (.ok ()))
    {r : WorkflowRun V} (hr : p.shared.get? X.run.runId = some r) :
    Kept (finishWith X.outcome X.ended r) r := by
  obtain ⟨want, hstage, hwant⟩ := h.execute
  have hr' := hwant hund r hr
  rw [hdone] at hstage
  cases hstage
  exact hr'

/-- **Reports racing with `_execute`.** In every interleaving the record's progress is what it was
at the start and then made of the reports whose call returned, each at most once, in the order they
were saved; when no save falls between the `get` and the `save` of an update, each is there, and a
terminal status stays with its result and error. -/
theorem racing_reports (X : Execution V κ) (store : MemoryWorkflowStore V)
    (hs : X.run.status = .pending) (schedule more : List (Option κ)) :
    let p := (X.start store).run memoryHandler schedule
    let p' := p.run memoryHandler more
    (∃ r, p.shared.get? X.run.runId = some r ∧ (savers p.log).Nodup ∧
      (∀ i, i ∈ savers p.log ↔ p.Finished (some i) (.ok ())) ∧
      X.run.progress <+: r.progress ∧
      r.progress.Sublist
        (X.run.progress ++ (savers p.log).map fun i => (X.reports i).event) ∧
      (Pool.Undisturbed StoreOp.Saves p.log →
        r.progress = X.run.progress ++ (savers p.log).map fun i => (X.reports i).event)) ∧
    (Pool.Undisturbed StoreOp.Saves p'.log → ∀ r r', p.shared.get? X.run.runId = some r →
      p'.shared.get? X.run.runId = some r' → r.status.isTerminal = true →
        r'.status = r.status ∧ r'.result = r.result ∧ r'.error = r.error) := by
  intro p p'
  have hp : Racing X p := racing_run store hs schedule
  have hp' : Racing X p' := Pool.run_induct (fun _ _ _ _ h hi => h.perform hi) hp more
  refine ⟨?_, fun hund r r' hr hr' hterm => ?_⟩
  · obtain ⟨r, hr, hprogress, hall⟩ := hp.stored
    exact ⟨r, hr, hp.nodup, hp.saved_iff, hprogress.start, hprogress.saved, hall⟩
  · obtain ⟨m, hm⟩ := Pool.run_log memoryHandler p more
    have hund₁ : Pool.Undisturbed StoreOp.Saves p.log := by
      have hund' := hund
      rw [show p'.log = p.log ++ m from hm] at hund'
      exact hund'.left
    obtain ⟨hdone, hout⟩ := hp.terminal hund₁ hr hterm
    have hout' := hp'.outcome hund (Pool.run_of_ret hdone more) hr'
    -- what `_execute` saved last does not depend on the record it was made from
    have hsame : (finishWith X.outcome X.ended r').status = (finishWith X.outcome X.ended r).status ∧
        (finishWith X.outcome X.ended r').result = (finishWith X.outcome X.ended r).result ∧
        (finishWith X.outcome X.ended r').error = (finishWith X.outcome X.ended r).error := by
      cases X.outcome <;> exact ⟨rfl, rfl, rfl⟩
    exact ⟨(hout'.status.trans hsame.1).trans hout.status.symm,
      (hout'.result.trans hsame.2.1).trans hout.result.symm,
      (hout'.error.trans hsame.2.2).trans hout.error.symm⟩

end Runs

/-! ## No thread but `_execute` -/

/-- `_execute` of a handler that only ends is its program performed alone. -/
theorem executeWith_store {Q ε : Type} (runId : String) (handler : WorkflowHandler V Q)
    (outcome : Except HandlerError (Option V)) (w : WorkflowWorld V ε) :
    let out := Prog.run memoryHandler
      (executeProg runId outcome (w.clock w.tick) (w.clock (w.tick + 1))) w.store
    let served := executeWith (fun _ => pure outcome) runId handler w
    (served.1, served.2.store) = (out.1.mapError .raised, out.2) := by
  intro out served
  simp only [out, served, executeProg, updateProg, executeWith]
  cases hget : w.store.get? runId with
  | none =>
    have hmissing : updateRun runId (fun run now => run.withStatus .running now) w =
        (.error (.raised (.workflowRunNotFound runId)), w) := by
      rw [updateRun, bind_of_error (getRun_missing hget)]
    rw [Prog.run_call_error (R := StoreOp.Res) (memoryHandler_missing hget), bind_of_error hmissing]
    rfl
  | some run =>
    have hkey : run.runId = runId := w.store.keyed hget
    subst hkey
    rw [Prog.run_call_ok (R := StoreOp.Res) (memoryHandler_found hget),
      bind_of_ok (updateRun_found hget)]
    generalize hw : ({ w with tick := w.tick + 1 } : WorkflowWorld V ε).saving
      (run.withStatus .running (w.clock w.tick)) = w₁
    have hstore : w.store.save (run.withStatus .running (w.clock w.tick)) = w₁.store := by
      rw [← hw]
      rfl
    have hclock : w.clock (w.tick + 1) = w₁.clock w₁.tick := by rw [← hw]; rfl
    have hfound : w₁.store.get? run.runId = some (run.withStatus .running (w.clock w.tick)) := by
      rw [← hstore, MemoryWorkflowStore.get?_save]
      exact if_pos rfl
    have hsave : memoryHandler (.save (run.withStatus .running (w.clock w.tick))) w.store =
        (.ok (), w₁.store) := by
      rw [← hstore]
      rfl
    rw [bind_of_ok (getRun_found hfound), Prog.run_call_ok (R := StoreOp.Res) hsave,
      Prog.run_call_ok (R := StoreOp.Res) (memoryHandler_found hfound), hclock]
    have hupdate := updateRun_store run.runId (fun run now => finishWith outcome now run) w₁
    cases outcome with
    | error exc => exact hupdate
    | ok result => exact hupdate

/-! ## One report -/

/-- A run whose handler makes one report and succeeds. -/
def oneReport : Execution Unit Unit where
  run := { runId := "r", name := "wf", params := ∅ }
  reports _ := { message := "half", ts := .finite 1, now := .finite 1 }
  outcome := .ok none
  started := .finite 1
  ended := .finite 2

/-- The report between the start and the end of `_execute`. -/
theorem racing_reports_inside :
    let p := (oneReport.start .empty).run memoryHandler
      [none, none, none, some (), some (), none, none]
    ∃ r, p.shared.get? "r" = some r ∧ r.progress.length = 1 ∧ r.status = .success := by
  intro p
  have hund : Pool.Undisturbed StoreOp.Saves p.log := by
    refine (((Pool.undisturbed_nil.update ?_ ?_).snoc ?_).update ?_ ?_).update ?_ ?_
    · exact id
    · rfl
    · exact False.elim
    · exact id
    · rfl
    · exact id
    · rfl
  obtain ⟨⟨r, hr, hnodup, hsaved, -, -, hall⟩, -⟩ := racing_reports oneReport .empty rfl
    [none, none, none, some (), some (), none, none] []
  have hmem : () ∈ savers p.log := (hsaved ()).mpr rfl
  have hstatus : (p.shared.get? "r").map (·.status) = some .success := rfl
  refine ⟨r, hr, ?_, ?_⟩
  · rw [hall hund, List.length_append, List.length_map]
    have hle : (savers p.log).length ≤ 1 := hnodup.length_le_card
    have hpos := List.length_pos_of_mem hmem
    show 0 + (savers p.log).length = 1
    omega
  · rw [show p.shared.get? "r" = some r from hr] at hstatus
    exact Option.some_inj.mp hstatus

/-- Saved late, the record the report got as RUNNING takes the place of SUCCESS; saved between the
last `get` and `save` of `_execute`, the event is lost though its call returned. -/
theorem reports_race :
    let p := (oneReport.start .empty).run memoryHandler [none, none, none, some (), none, none]
    let q := (oneReport.start .empty).run memoryHandler
      [none, none, none, some (), none, some (), none]
    (p.shared.get? "r").map (·.status) = some .success ∧
      ((p.run memoryHandler [some ()]).shared.get? "r").map (·.status) = some .running ∧
      q.Finished (some ()) (.ok ()) ∧
      (q.shared.get? "r").map (fun r => (r.status, r.progress.length)) = some (.success, 0) :=
  ⟨rfl, rfl, rfl, rfl⟩

end ClawEngine.Workflows
