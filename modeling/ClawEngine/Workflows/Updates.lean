import ClawEngine.Workflows.Service

/-!
# Updates of a run, one store operation at a time

The threads of a handler report progress while `_execute` goes on, through the one store. Every
update of a run is a `get` and a `save` with nothing that holds them together, so here the code is a
program over these two operations; `updateRun_store` and `reportProgress_store` say that performed
alone it is the code of the service.
-/

set_option autoImplicit false

namespace ClawEngine.Workflows

open ClawEngine.Core ClawEngine.Core.Act

variable {V ε : Type}

/-- The operations of `WorkflowStore`. -/
inductive StoreOp (V : Type)
  | get (runId : String)
  | save (run : WorkflowRun V)

namespace StoreOp

/-- What each is answered with. -/
abbrev Res : StoreOp V → Type
  | .get _ => WorkflowRun V
  | .save _ => Unit

/-- The operation writes. -/
def Saves : StoreOp V → Prop
  | .get _ => False
  | .save _ => True

end StoreOp

/-- Programs over the store. -/
abbrev StoreProg (V A : Type) : Type := ProgE (StoreOp V) StoreOp.Res WorkflowError A

/-- What `MemoryWorkflowStore` does. -/
def memoryHandler : Handler (StoreOp V) (fun op => Except WorkflowError op.Res)
    (MemoryWorkflowStore V)
  | .get runId, store =>
    match store.get? runId with
    | none => (.error (.workflowRunNotFound runId), store)
    | some run => (.ok run, store)
  | .save run, store => (.ok (), store.save run)

/-- `store.save(change(store.get(run_id)))`. -/
def updateProg (runId : String) (change : WorkflowRun V → WorkflowRun V) (rest : StoreProg V Unit) :
    StoreProg V Unit :=
  .call (.get runId) fun run => .call (.save (change run)) fun _ => rest

/-- One call of `report_progress`, with the times it reads. -/
structure Report where
  message : String
  step : Option String := none
  fraction : Option PyFloat := none
  ts : PyFloat
  now : PyFloat

namespace Report

/-- The event it adds. -/
def event (report : Report) : ProgressEvent :=
  { message := report.message, step := report.step, fraction := report.fraction, ts := report.ts }

/-- `WorkflowContext.report_progress`. -/
def prog (runId : String) (report : Report) : StoreProg V Unit :=
  match report.fraction.filter (!isFraction ·) with
  | some x => .raise (.fractionOutOfRange x)
  | none => updateProg runId (·.withProgress report.event report.now) (.ret (.ok ()))

end Report

/-- The record `_execute` saves last. -/
def finishWith (outcome : Except HandlerError (Option V)) (now : PyFloat) (run : WorkflowRun V) :
    WorkflowRun V :=
  match outcome with
  | .error exc => run.withError (exc.typeName ++ ": " ++ exc.text) now
  | .ok result => run.withResult result now

/-- What `_execute` itself asks of the store; the handler runs after the second `get`, and ends with
`outcome`. -/
def executeProg (runId : String) (outcome : Except HandlerError (Option V)) (started ended : PyFloat) :
    StoreProg V Unit :=
  updateProg runId (·.withStatus .running started) <|
    .call (.get runId) fun _ => updateProg runId (finishWith outcome ended) (.ret (.ok ()))

/-! ## Performed alone -/

section Alone

variable {store : MemoryWorkflowStore V} {runId : String} {run : WorkflowRun V}
  {w : WorkflowWorld V ε}

theorem memoryHandler_missing (h : store.get? runId = none) :
    memoryHandler (.get runId) store = (.error (.workflowRunNotFound runId), store) := by
  simp only [memoryHandler, h]

theorem memoryHandler_found (h : store.get? runId = some run) :
    memoryHandler (.get runId) store = (.ok run, store) := by
  simp only [memoryHandler, h]

theorem getRun_missing (h : w.store.get? runId = none) :
    getRun runId w = (.error (.raised (.workflowRunNotFound runId)), w) := by
  simp only [getRun, readE, h]

theorem getRun_found (h : w.store.get? runId = some run) : getRun runId w = (.ok run, w) := by
  simp only [getRun, readE, h]

/-- An update performed alone is that of the service. -/
theorem updateRun_store (runId : String) (change : WorkflowRun V → PyFloat → WorkflowRun V)
    (w : WorkflowWorld V ε) :
    let out := Prog.run memoryHandler
      (updateProg runId (change · (w.clock w.tick)) (.ret (.ok ()))) w.store
    let served := updateRun runId change w
    (served.1, served.2.store) = (out.1.mapError .raised, out.2) := by
  intro out served
  simp only [out, served, updateProg, updateRun]
  cases hget : w.store.get? runId with
  | none =>
    rw [Prog.run_call_error (R := StoreOp.Res) (memoryHandler_missing hget),
      bind_of_error (getRun_missing hget)]
    rfl
  | some run =>
    rw [Prog.run_call_ok (R := StoreOp.Res) (memoryHandler_found hget),
      bind_of_ok (getRun_found hget)]
    rfl

/-- A report performed alone is that of the service. -/
theorem reportProgress_store (runId message : String) (step : Option String)
    (fraction : Option PyFloat) (w : WorkflowWorld V ε) :
    let report : Report :=
      { message, step, fraction, ts := w.clock w.tick, now := w.clock (w.tick + 1) }
    let out := Prog.run memoryHandler (report.prog runId) w.store
    let served := reportProgress runId message step fraction w
    (served.1, served.2.store) = (out.1.mapError .raised, out.2) := by
  intro report out served
  simp only [out, served, report, Report.prog, reportProgress]
  cases fraction.filter (!isFraction ·) with
  | some x => rfl
  | none =>
    simp only [updateProg]
    cases hget : w.store.get? runId with
    | none =>
      rw [Prog.run_call_error (R := StoreOp.Res) (memoryHandler_missing hget),
        bind_of_error (getRun_missing hget)]
      rfl
    | some run =>
      rw [Prog.run_call_ok (R := StoreOp.Res) (memoryHandler_found hget),
        bind_of_ok (getRun_found hget)]
      rfl

end Alone

end ClawEngine.Workflows
