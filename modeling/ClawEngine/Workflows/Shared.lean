import ClawEngine.Core.Act
import ClawEngine.Workflows.Service

/-!
# Mappings that runs share with their handlers

`WorkflowService` again, with what `Service.lean` leaves out: the parameters of a run are a mapping
object. `run` makes one of its own with `dict(..)`, the stored records refer to it, and the handler
gets the object itself. So a handler is a function from the parameters it finds to its outcome and
to what it leaves in that object.

The executor holds the tasks submitted to it and performs them at some time. `InlineExecutor`
performs each at once. Beside the store the world keeps what the parameters of each run were when it
was created, what those of the first run of its chain were, and what each handler found.
-/

set_option autoImplicit false

namespace ClawEngine.Workflows

open ClawEngine.Core

variable {V : Type}

/-- A handler: what the mapping holds, to its outcome and what the mapping holds then. -/
abbrev SharedHandler (V : Type) : Type :=
  Dict String V → Except HandlerError (Option V) × Dict String V

/-- A stored record; `params` is the object it refers to. -/
structure SharedRun (V : Type) where
  runId : String
  name : String
  params : Nat
  status : WorkflowStatus := .pending
  result : Option V := none
  error : Option String := none
  rerunOf : Option String := none
  ownerWorkspaceId : Option String := none

structure SharedWorld (V : Type) where
  registry : Dict String (SharedHandler V) := ∅
  objects : List (Dict String V) := []
  runs : Dict String (SharedRun V) := ∅
  pending : List (String × SharedHandler V) := []
  created : Dict String (Dict String V) := ∅
  first : Dict String (Dict String V) := ∅
  executed : List (String × Dict String V) := []

/-- What an object holds. -/
def SharedWorld.contents (w : SharedWorld V) (object : Nat) : Dict String V :=
  w.objects[object]?.getD ∅

/-- The code of the service. -/
abbrev Sh (V A : Type) := Act (SharedWorld V) WorkflowError A

/-! ## Statements -/

/-- `dict(contents)`. -/
def newObject (contents : Dict String V) : Sh V Nat := fun w =>
  (.ok w.objects.length, { w with objects := w.objects ++ [contents] })

/-- `store.save(run)`. -/
def saveShared (run : SharedRun V) : Sh V Unit := fun w =>
  (.ok (), { w with runs := w.runs.set run.runId run })

/-- `store.get(run_id)`. -/
def getShared (runId : String) : Sh V (SharedRun V) := Act.readE fun w =>
  match w.runs.get? runId with
  | none => .error (.workflowRunNotFound runId)
  | some run => .ok run

/-- The handler is called with the object. -/
def callHandler (handler : SharedHandler V) (runId : String) (object : Nat) :
    Sh V (Except HandlerError (Option V)) := fun w =>
  let ended := handler (w.contents object)
  (.ok ended.1,
    { w with
      objects := w.objects.set object ended.2
      executed := w.executed ++ [(runId, w.contents object)] })

/-- The log of a run that is created; `chain` is the run that `rerun` was called for. -/
def logCreated (runId : String) (chain : Option String) (params : Dict String V) : Sh V Unit :=
  fun w =>
    (.ok (), { w with
      created := w.created.set runId params
      first := w.first.set runId ((chain.bind w.first.get?).getD params) })

/-! ## The service -/

/-- `with_error` or `with_result`, by how the handler ended. -/
def SharedRun.ended (run : SharedRun V) : Except HandlerError (Option V) → SharedRun V
  | .error exc =>
    { run with
      status := .failed, error := some (exc.typeName ++ ": " ++ exc.text), result := none }
  | .ok result => { run with status := .success, result, error := none }

/-- `_execute`. -/
def executeShared (runId : String) (handler : SharedHandler V) : Sh V Unit := do
  let run ← getShared runId
  saveShared { run with status := .running }
  let run ← getShared runId
  let outcome ← callHandler handler runId run.params
  let run ← getShared runId
  saveShared (run.ended outcome)

/-- The executor takes a task. -/
def enqueue (runId : String) (handler : SharedHandler V) : Sh V Unit := fun w =>
  (.ok (), { w with pending := w.pending ++ [(runId, handler)] })

/-- `run`, of a chain. -/
def runShared (runId : String) (chain : Option String) (name : String)
    (params : Option (Dict String V)) (rerunOf ownerWorkspaceId : Option String) :
    Sh V (SharedRun V) := fun w =>
  match w.registry.get? name with
  | none => (.error (.workflowNotRegistered name), w)
  | some handler =>
    (do
      let object ← newObject (params.getD ∅)
      saveShared { runId, name, params := object, rerunOf, ownerWorkspaceId }
      logCreated runId chain (params.getD ∅)
      enqueue runId handler
      getShared runId : Sh V (SharedRun V)) w

/-- `rerun`: `run` copies what the object of the old run holds. -/
def rerunShared (newId runId : String) : Sh V (SharedRun V) := do
  let old ← getShared runId
  if !old.status.isTerminal then Act.raise (.workflowNotTerminal runId old.status)
  else do
    let params ← Act.read fun w => w.contents old.params
    runShared newId (some runId) old.name (some params) (some runId) old.ownerWorkspaceId

/-! ## Runs -/

/-- What may happen: the calls of a program, with the id that `uuid4` draws, and a task that the
executor performs. -/
inductive SharedAction (V : Type)
  | register (name : String) (handler : SharedHandler V)
  | run (newId name : String) (params : Option (Dict String V))
      (rerunOf ownerWorkspaceId : Option String)
  | rerun (newId runId : String)
  | work (i : Nat)

/-- Ids are drawn anew. -/
def stepShared : SharedAction V → SharedWorld V → Option (SharedWorld V)
  | .register name handler, w => some { w with registry := w.registry.set name handler }
  | .run newId name params rerunOf ownerWorkspaceId, w =>
    if (w.runs.get? newId).isSome then none
    else some (runShared newId none name params rerunOf ownerWorkspaceId w).2
  | .rerun newId runId, w =>
    if (w.runs.get? newId).isSome then none else some (rerunShared newId runId w).2
  | .work i, w =>
    match w.pending[i]? with
    | none => none
    | some (runId, handler) =>
      some (executeShared runId handler { w with pending := w.pending.eraseIdx i }).2

end ClawEngine.Workflows
