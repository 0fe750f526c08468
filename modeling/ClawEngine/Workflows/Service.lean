import ClawEngine.Core.Act
import ClawEngine.Core.Prog
import ClawEngine.Workflows.Contracts

/-!
# WorkflowService

`engine/workflows/service.py`, with `WorkflowContext.report_progress` and `InlineExecutor`, which
calls what it is given at once. A handler is a program over the operations it may use: reporting
progress for a run, the calls of the service, and questions to its own surroundings `ε`, whose
answers nothing here depends on. A handler that runs workflows is performed inside the handler of
another, so performing takes fuel: the number of runs that may be inside each other.

The world keeps every record saved, beside the store. Run ids come from `ids` and times from
`clock`, one after another.
-/

set_option autoImplicit false

namespace ClawEngine.Workflows

open ClawEngine.Core ClawEngine.Core.Act

variable {V Q ε : Type}

/-- The exceptions of the service and of a context; the last is the `ValueError` of a fraction that
is not in 0.0..1.0. -/
inductive WorkflowError
  | workflowRunNotFound (runId : String)
  | workflowNotRegistered (name : String)
  | workflowNotTerminal (runId : String) (status : WorkflowStatus)
  | fractionOutOfRange (fraction : PyFloat)
  deriving DecidableEq

/-- What a handler may do; a question `Q` is one to its surroundings. -/
inductive HandlerOp (V Q : Type)
  | reportProgress (runId message : String) (step : Option String) (fraction : Option PyFloat)
  | run (name : String) (params : Option (Dict String V)) (rerunOf ownerWorkspaceId : Option String)
  | rerun (runId : String)
  | get (runId : String)
  | other (question : Q)

/-- What each is answered with, when it does not raise. -/
abbrev HandlerOp.Res : HandlerOp V Q → Type
  | .reportProgress .. => Unit
  | .run .. | .rerun _ | .get _ => WorkflowRun V
  | .other _ => V

/-- Programs over these operations; an exception is an answer the program may catch. -/
abbrev HandlerProg (V Q A : Type) : Type :=
  Prog (HandlerOp V Q) (fun op => Except WorkflowError op.Res) A

/-- An exception a handler raised: the name of its type and its text. -/
structure HandlerError where
  typeName : String
  text : String
  deriving DecidableEq, Repr

/-- `WorkflowHandler`: what it does with the parameters and the context of a run. -/
abbrev WorkflowHandler (V Q : Type) : Type :=
  Dict String V → (runId : String) → HandlerProg V Q (Except HandlerError (Option V))

/-- What the service acts on. -/
structure WorkflowWorld (V ε : Type) where
  store : MemoryWorkflowStore V
  saved : List (WorkflowRun V) := []
  ids : Nat → String
  drawn : Nat := 0
  clock : Nat → PyFloat
  tick : Nat := 0
  surroundings : ε

/-- What ends a statement: an exception, or that the fuel ran out. -/
inductive Stop
  | raised (e : WorkflowError)
  | outOfFuel
  deriving DecidableEq

/-- The code of the service. -/
abbrev Wf (V ε A : Type) := Act (WorkflowWorld V ε) Stop A

/-- The service: its registry of handlers, and what answers the questions of handlers. -/
structure WorkflowService (V Q ε : Type) where
  registry : Dict String (WorkflowHandler V Q)
  answer : Q → ε → V × ε

/-! ## Statements -/

/-- `time.time()`. -/
def timeNow : Wf V ε PyFloat := fun w => (.ok (w.clock w.tick), { w with tick := w.tick + 1 })

/-- `uuid.uuid4().hex`. -/
def newRunId : Wf V ε String := fun w => (.ok (w.ids w.drawn), { w with drawn := w.drawn + 1 })

/-- `store.save(run)`. -/
def saveRun (run : WorkflowRun V) : Wf V ε Unit := fun w =>
  (.ok (), { w with store := w.store.save run, saved := w.saved ++ [run] })

/-- `store.get(run_id)`. -/
def getRun (runId : String) : Wf V ε (WorkflowRun V) := Act.readE fun w =>
  match w.store.get? runId with
  | none => .error (.raised (.workflowRunNotFound runId))
  | some run => .ok run

/-- `store.save(store.get(run_id).with_...(..))`. -/
def updateRun (runId : String) (change : WorkflowRun V → PyFloat → WorkflowRun V) :
    Wf V ε Unit := do
  let run ← getRun runId
  let now ← timeNow
  saveRun (change run now)

/-- `0.0 <= x <= 1.0`. -/
def isFraction : PyFloat → Bool
  | .finite q => 0 ≤ q && q ≤ 1
  | .negZero => true
  | _ => false

/-- `WorkflowContext.report_progress`. -/
def reportProgress (runId message : String) (step : Option String) (fraction : Option PyFloat) :
    Wf V ε Unit :=
  match fraction.filter (!isFraction ·) with
  | some x => Act.raise (.raised (.fractionOutOfRange x))
  | none => do
    let run ← getRun runId
    let ts ← timeNow
    let now ← timeNow
    saveRun (run.withProgress { message, step, fraction, ts } now)

/-! ## Performing handlers -/

/-- `_execute`, with what performs the handler. -/
def executeWith (perform : HandlerProg V Q (Except HandlerError (Option V)) →
      Wf V ε (Except HandlerError (Option V)))
    (runId : String) (handler : WorkflowHandler V Q) : Wf V ε Unit := do
  updateRun runId fun run now => run.withStatus .running now
  let run ← getRun runId
  match ← perform (handler run.params runId) with
  | .error exc => updateRun runId fun run now => run.withError (exc.typeName ++ ": " ++ exc.text) now
  | .ok result => updateRun runId fun run now => run.withResult result now

/-- `WorkflowService.run`, with what `_execute` does. -/
def runWith (S : WorkflowService V Q ε) (execute : String → WorkflowHandler V Q → Wf V ε Unit)
    (name : String) (params : Option (Dict String V)) (rerunOf ownerWorkspaceId : Option String) :
    Wf V ε (WorkflowRun V) :=
  match S.registry.get? name with
  | none => Act.raise (.raised (.workflowNotRegistered name))
  | some handler => do
    let runId ← newRunId
    saveRun { runId, name, params := params.getD ∅, rerunOf, ownerWorkspaceId }
    execute runId handler
    getRun runId

/-- `WorkflowService.rerun`. -/
def rerunWith (S : WorkflowService V Q ε) (execute : String → WorkflowHandler V Q → Wf V ε Unit)
    (runId : String) : Wf V ε (WorkflowRun V) := do
  let old ← getRun runId
  if !old.status.isTerminal then Act.raise (.raised (.workflowNotTerminal runId old.status))
  else runWith S execute old.name (some old.params) (some runId) old.ownerWorkspaceId

/-- One operation of a handler. -/
def performOp (S : WorkflowService V Q ε) (execute : String → WorkflowHandler V Q → Wf V ε Unit) :
    (op : HandlerOp V Q) → Wf V ε op.Res
  | .reportProgress runId message step fraction => reportProgress runId message step fraction
  | .run name params rerunOf ownerWorkspaceId => runWith S execute name params rerunOf ownerWorkspaceId
  | .rerun runId => rerunWith S execute runId
  | .get runId => getRun runId
  | .other question => fun w =>
    (.ok (S.answer question w.surroundings).1,
      { w with surroundings := (S.answer question w.surroundings).2 })

/-- A program of a handler, one operation after another. What an operation raises is its answer;
without fuel the program stops. -/
def performProg {A : Type} (S : WorkflowService V Q ε)
    (execute : String → WorkflowHandler V Q → Wf V ε Unit) : HandlerProg V Q A → Wf V ε A
  | .ret a => pure a
  | .vis op k => do
    match ← (performOp S execute op).attempt with
    | .error .outOfFuel => Act.raise .outOfFuel
    | .error (.raised e) => performProg S execute (k (.error e))
    | .ok answer => performProg S execute (k (.ok answer))

namespace WorkflowService

/-- `_execute`. -/
def execute (S : WorkflowService V Q ε) : (fuel : Nat) → String → WorkflowHandler V Q → Wf V ε Unit
  | 0 => fun _ _ => Act.raise .outOfFuel
  | fuel + 1 => executeWith (performProg S (S.execute fuel))

/-- `WorkflowService.run` over `InlineExecutor`. -/
def run (S : WorkflowService V Q ε) (fuel : Nat) (name : String) (params : Option (Dict String V))
    (rerunOf ownerWorkspaceId : Option String) : Wf V ε (WorkflowRun V) :=
  runWith S (S.execute fuel) name params rerunOf ownerWorkspaceId

/-- `WorkflowService.rerun`. -/
def rerun (S : WorkflowService V Q ε) (fuel : Nat) (runId : String) : Wf V ε (WorkflowRun V) :=
  rerunWith S (S.execute fuel) runId

/-- Calls of the service, one after another, as a program makes them. -/
def calls {A : Type} (S : WorkflowService V Q ε) (fuel : Nat) (p : HandlerProg V Q A) : Wf V ε A :=
  performProg S (S.execute fuel) p

end WorkflowService

end ClawEngine.Workflows
