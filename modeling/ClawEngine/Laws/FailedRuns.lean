import ClawEngine.Laws.RunLifecycle
import ClawEngine.Workflows.Executor
import ClawEngine.Workflows.Updates

/-!
# Calls that raise after the run was stored

`run` stores the pending record before it gives the task to the executor, and takes nothing back if
`submit` raises. So a call of `run` or `rerun` that raises leaves the stored runs as they were, and no
run unfinished that was not there, exactly if it raises before that: a name that is not registered, a
run that is not there or not finished. `ThreadWorkflowExecutor` after `shutdown` refuses the task, and
the record it leaves is pending for ever.
-/

set_option autoImplicit false

namespace ClawEngine.Workflows

open ClawEngine.Core ClawEngine.Core.Act

variable {V Q ε A : Type}

/-! ## What a failed call may leave -/

section Stored

variable {w w' : WorkflowWorld V ε} {runId : String}

theorem stored_saving (run : WorkflowRun V) (h : Stored runId w) : Stored runId (w.saving run) := by
  unfold Stored at h ⊢
  rw [get?_saving]
  split
  · rfl
  · exact h

theorem keeps_saveRun (run : WorkflowRun V) : Keeps (Stored runId) (saveRun run : Wf V ε Unit) :=
  fun _ h => stored_saving run h

theorem getRun_stored (h : Stored runId w) :
    ∃ run, w.store.get? runId = some run ∧ getRun runId w = (.ok run, w) := by
  obtain ⟨run, hrun⟩ := Option.isSome_iff_exists.mp h
  exact ⟨run, hrun, getRun_found hrun⟩

end Stored

/-! ## Calls that raise -/

section Calls

variable {S : SubmittingService V ε} {w : WorkflowWorld V ε} {name : String}
  {params : Option (Dict String V)} {rerunOf ownerWorkspaceId : Option String}

/-- What `rerun` does of a run that is there. -/
theorem rerun_found {runId : String} {old : WorkflowRun V} (h : w.store.get? runId = some old) :
    S.rerun runId w =
      if old.status.isTerminal then
        S.run old.name (some old.params) (some runId) old.ownerWorkspaceId w
      else (.error (.service (.raised (.workflowNotTerminal runId old.status))), w) := by
  have hget : served (getRun runId) w = (.ok old, w) := mapError_eq_ok.mpr (getRun_found h)
  unfold SubmittingService.rerun
  rw [bind_of_ok hget]
  cases old.status.isTerminal <;> rfl

end Calls

/-! ## The two executors -/

section Executors

variable {S : SubmittingService V ε} {w : WorkflowWorld V ε} {name : String}
  {params : Option (Dict String V)} {rerunOf ownerWorkspaceId : Option String}

/-- What the handler of a run finds. -/
def WorkflowWorld.starting (w : WorkflowWorld V ε) (run : WorkflowRun V) : WorkflowWorld V ε :=
  ({ w with tick := w.tick + 1 } : WorkflowWorld V ε).saving
    (run.withStatus .running (w.clock w.tick))

theorem served_ok {x : Wf V ε A} {a : A} {w' : WorkflowWorld V ε} (h : x w = (.ok a, w')) :
    served x w = (.ok a, w') :=
  mapError_eq_ok.mpr h

theorem served_updateRun {runId : String} {run : WorkflowRun V}
    {change : WorkflowRun V → PyFloat → WorkflowRun V} (h : w.store.get? runId = some run) :
    served (updateRun runId change) w = (.ok (), ({ w with tick := w.tick + 1 } :
      WorkflowWorld V ε).saving (change run (w.clock w.tick))) :=
  served_ok (updateRun_found h)

/-- How the handler of a stored run stops, and what it leaves. -/
def stopAt (runId : String) (run : WorkflowRun V) (handler : StoppingHandler V ε)
    (w : WorkflowWorld V ε) : HandlerStop V ε × WorkflowWorld V ε :=
  (handler run.params runId).perform (w.starting run)

/-- The handler of a stored run is called with its parameters, while the run is running. -/
theorem executeStopping_stored {runId : String} {run : WorkflowRun V}
    (h : w.store.get? runId = some run) (handler : StoppingHandler V ε) :
    executeStopping runId handler w =
      match stopAt runId run handler w with
      | (.baseException typeName, w₁) => (.error (.baseException typeName), w₁)
      | (.raised exc, w₁) => recordError runId exc w₁
      | (.returned result, w₁) =>
        served (updateRun runId fun run now => run.withResult result now) w₁ := by
  obtain rfl := w.store.keyed h
  have hget : (w.starting run).store.get? run.runId =
      some (run.withStatus .running (w.clock w.tick)) := (get?_saving _ _ _).trans (if_pos rfl)
  have hstart : served (updateRun run.runId fun run now => run.withStatus .running now) w =
      (.ok (), w.starting run) := served_updateRun h
  rw [executeStopping, bind_of_ok hstart, bind_of_ok (served_ok (getRun_found hget))]
  rcases hstop : stopAt run.runId run handler w with ⟨stop, w₁⟩
  have hstopped : stopOf (handler run.params run.runId) (w.starting run) = (.ok stop, w₁) := by
    show (Except.ok (stopAt run.runId run handler w).1, (stopAt run.runId run handler w).2) = _
    rw [hstop]
  refine (bind_of_ok hstopped).trans ?_
  cases stop <;> rfl

theorem stopAt_stored {runId : String} {run : WorkflowRun V} (h : w.store.get? runId = some run)
    (handler : StoppingHandler V ε) : Stored runId (stopAt runId run handler w).2 := by
  obtain rfl := w.store.keyed h
  refine (handler run.params run.runId).keeps _ _ (stored_saving _ ?_)
  exact Option.isSome_iff_exists.mpr ⟨run, h⟩

end Executors

/-! ## The service of the other laws -/

section Inline

variable {w : WorkflowWorld V ε}

/-- How a handler stopped that is a program: its exceptions have their texts. -/
def HandlerStop.of : Except HandlerError (Option V) → HandlerStop V ε
  | .ok result => .returned result
  | .error exc => .raised ⟨exc.typeName, pure exc.text, fun _ => keeps_pure _⟩

/-- The call does what performing the program does, which never runs out of fuel. -/
def CallsProgram (perform : HandlerProg V Q (Except HandlerError (Option V)) →
      Wf V ε (Except HandlerError (Option V)))
    (handler : WorkflowHandler V Q) (called : StoppingHandler V ε) : Prop :=
  ∀ params runId w, ∃ answer, perform (handler params runId) w =
    (.ok answer, ((called params runId).perform w).2) ∧
      ((called params runId).perform w).1 = .of answer

/-- **`_execute` as the service of the other laws has it.** -/
theorem executeWith_called {perform : HandlerProg V Q (Except HandlerError (Option V)) →
      Wf V ε (Except HandlerError (Option V))}
    {handler : WorkflowHandler V Q} {called : StoppingHandler V ε}
    (h : CallsProgram perform handler called) (runId : String) :
    served (executeWith perform runId handler) = executeStopping runId called := by
  unfold executeWith executeStopping served
  rw [mapError_bind]
  congr 1
  funext _
  rw [mapError_bind]
  congr 1
  funext run
  rw [mapError_bind]
  funext w
  obtain ⟨answer, hperform, hended⟩ := h run.params runId w
  have hcalled : stopOf (called run.params runId) w =
      (.ok (.of answer), ((called run.params runId).perform w).2) := by
    rw [stopOf, hended]
  have hperformed : (perform (handler run.params runId)).mapError SubmitError.service w =
      (.ok answer, ((called run.params runId).perform w).2) := mapError_eq_ok.mpr hperform
  refine (bind_of_ok hperformed).trans (Eq.trans ?_ (bind_of_ok hcalled).symm)
  cases answer with
  | ok result => rfl
  | error exc =>
    show mapError SubmitError.service (updateRun runId _) _ = recordError runId _ _
    unfold recordError updateRun served
    rw [mapError_bind]
    congr 1

/-- **`run` over the inline executor** is the one of the other laws. -/
theorem run_inline {T : WorkflowService V Q ε} {S : SubmittingService V ε}
    {perform : HandlerProg V Q (Except HandlerError (Option V)) →
      Wf V ε (Except HandlerError (Option V))} {name : String}
    (hexecutor : S.executor = inlineExecutor)
    (hnone : T.registry.get? name = none → S.registry.get? name = none)
    (hsome : ∀ handler, T.registry.get? name = some handler →
      ∃ called, S.registry.get? name = some called ∧ CallsProgram perform handler called)
    (params : Option (Dict String V)) (rerunOf ownerWorkspaceId : Option String) :
    served (runWith T (executeWith perform) name params rerunOf ownerWorkspaceId) =
      S.run name params rerunOf ownerWorkspaceId := by
  unfold runWith SubmittingService.run served
  cases hname : T.registry.get? name with
  | none => rw [hnone hname]; rfl
  | some handler =>
    obtain ⟨called, hcalled, hprogram⟩ := hsome handler hname
    rw [hcalled, hexecutor]
    show mapError SubmitError.service (newRunId >>= _) = _
    rw [mapError_bind]
    congr 1
    funext runId
    rw [mapError_bind]
    congr 1
    funext _
    rw [mapError_bind]
    show served (executeWith perform runId handler) >>= _ = _
    rw [executeWith_called hprogram]
    rfl

end Inline

/-! ## When failed calls are atomic -/

def quietWorld : WorkflowWorld String Unit :=
  { store := .empty, ids := fun _ => "r1", clock := fun _ => .finite 0, surroundings := () }

end ClawEngine.Workflows
