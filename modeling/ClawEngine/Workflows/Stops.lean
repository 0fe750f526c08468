import ClawEngine.Workflows.Service

/-!
# Handlers whose exceptions act

`WorkflowService._execute` once more, for handlers that may stop in any way. The text of an exception
is made by `f"{exc}"`, which runs the `__str__` of its class: code of the handler's author, which may
act on the store and may itself raise. It runs inside the `except` clause, after the record was read
and before it is saved, and nobody catches what it raises. An exception that is no `Exception` is not
caught either.
-/

set_option autoImplicit false

namespace ClawEngine.Workflows

open ClawEngine.Core

variable {V ε A : Type}

/-- What leaves a call of the service: an exception of the service, the `RuntimeError` of an
executor, an `Exception` that making the text of another one raised, or one that is no
`Exception`. -/
inductive SubmitError
  | service (e : Stop)
  | runtimeError (text : String)
  | exception (typeName : String)
  | baseException (typeName : String)
  deriving DecidableEq

/-- The code of the service. -/
abbrev Sv (V ε A : Type) := Act (WorkflowWorld V ε) SubmitError A

/-- The run is stored. -/
def Stored (runId : String) (w : WorkflowWorld V ε) : Prop := (w.store.get? runId).isSome

/-! ## Handlers -/

/-- An `Exception`, with what making its text does. -/
structure RaisedException (V ε : Type) where
  typeName : String
  str : Sv V ε String
  keeps : ∀ runId, Act.Keeps (Stored runId) str

/-- How a handler stops. -/
inductive HandlerStop (V ε : Type)
  | returned (result : Option V)
  | raised (exc : RaisedException V ε)
  | baseException (typeName : String)

/-- What a handler does when it is called. The store has no operation that removes a run. -/
structure StoppingCall (V ε : Type) where
  perform : WorkflowWorld V ε → HandlerStop V ε × WorkflowWorld V ε
  keeps : ∀ runId w, Stored runId w → Stored runId (perform w).2

/-- `handler(params, ctx)`. -/
abbrev StoppingHandler (V ε : Type) : Type := Dict String V → (runId : String) → StoppingCall V ε

/-- The call of a handler. -/
def stopOf (call : StoppingCall V ε) : Sv V ε (HandlerStop V ε) := fun w =>
  (.ok (call.perform w).1, (call.perform w).2)

/-! ## _execute -/

/-- A statement of the service. -/
def served (x : Wf V ε A) : Sv V ε A := x.mapError .service

/-- `store.save(store.get(run_id).with_error(f"{type(exc).__name__}: {exc}"))`. -/
def recordError (runId : String) (exc : RaisedException V ε) : Sv V ε Unit := do
  let run ← served (getRun runId)
  let text ← exc.str
  let now ← served timeNow
  served (saveRun (run.withError (exc.typeName ++ ": " ++ text) now))

/-- `_execute`. -/
def executeStopping (runId : String) (handler : StoppingHandler V ε) : Sv V ε Unit := do
  served (updateRun runId fun run now => run.withStatus .running now)
  let run ← served (getRun runId)
  match ← stopOf (handler run.params runId) with
  | .baseException typeName => Act.raise (.baseException typeName)
  | .raised exc => recordError runId exc
  | .returned result => served (updateRun runId fun run now => run.withResult result now)

/-! ## Handlers that report -/

/-- The arguments of `ctx.report_progress`. -/
structure ReportCall where
  message : String
  step : Option String := none
  fraction : Option PyFloat := none

/-- A program over reports; what a report raises is an answer the program may catch. -/
abbrev ReportProg (V ε : Type) : Type :=
  Prog ReportCall (fun _ => Except Stop Unit) (HandlerStop V ε)

/-- One report of a run. -/
def performReport (runId : String) :
    (report : ReportCall) → WorkflowWorld V ε → Except Stop Unit × WorkflowWorld V ε :=
  fun report => reportProgress runId report.message report.step report.fraction

end ClawEngine.Workflows
