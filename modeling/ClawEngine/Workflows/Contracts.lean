import ClawEngine.Core.Dict
import ClawEngine.Core.Json

/-!
# Workflow runs and their store

`engine/workflows/contracts.py` and `memory_store.py`. The parameters and the result of a run are
values of `V`; a result may be `None`.
-/

set_option autoImplicit false

namespace ClawEngine.Workflows

open ClawEngine.Core

variable {V : Type}

inductive WorkflowStatus
  | pending | running | success | failed
  deriving DecidableEq, Repr

structure ProgressEvent where
  message : String
  step : Option String := none
  fraction : Option PyFloat := none
  ts : PyFloat := .finite 0

structure WorkflowRun (V : Type) where
  runId : String
  name : String
  params : Dict String V
  status : WorkflowStatus := .pending
  progress : List ProgressEvent := []
  result : Option V := none
  error : Option String := none
  rerunOf : Option String := none
  ownerWorkspaceId : Option String := none
  createdAt : PyFloat := .finite 0
  updatedAt : PyFloat := .finite 0

namespace WorkflowStatus

/-- The states a run does not leave. -/
def isTerminal : WorkflowStatus → Bool
  | .success | .failed => true
  | .pending | .running => false

end WorkflowStatus

namespace WorkflowRun

/-- `with_status`. -/
def withStatus (run : WorkflowRun V) (status : WorkflowStatus) (now : PyFloat) : WorkflowRun V :=
  { run with status, updatedAt := now }

/-- `with_progress`. -/
def withProgress (run : WorkflowRun V) (event : ProgressEvent) (now : PyFloat) : WorkflowRun V :=
  { run with progress := run.progress ++ [event], updatedAt := now }

/-- `with_result`. -/
def withResult (run : WorkflowRun V) (result : Option V) (now : PyFloat) : WorkflowRun V :=
  { run with status := .success, result, error := none, updatedAt := now }

/-- `with_error`. -/
def withError (run : WorkflowRun V) (error : String) (now : PyFloat) : WorkflowRun V :=
  { run with status := .failed, error := some error, result := none, updatedAt := now }

end WorkflowRun

/-- `MemoryWorkflowStore`: every run is stored under its own id. -/
structure MemoryWorkflowStore (V : Type) where
  runs : Dict String (WorkflowRun V)
  keyed : ∀ {runId run}, runs.get? runId = some run → run.runId = runId

namespace MemoryWorkflowStore

def empty : MemoryWorkflowStore V := ⟨∅, nofun⟩

/-- `save`. -/
def save (store : MemoryWorkflowStore V) (run : WorkflowRun V) : MemoryWorkflowStore V where
  runs := store.runs.set run.runId run
  keyed := by
    intro runId run' h
    rw [Dict.get?_set] at h
    by_cases hid : runId = run.runId
    · rw [if_pos hid] at h
      cases h
      exact hid.symm
    · rw [if_neg hid] at h
      exact store.keyed h

/-- `get`; `none` is `WorkflowRunNotFound`. -/
def get? (store : MemoryWorkflowStore V) (runId : String) : Option (WorkflowRun V) :=
  store.runs.get? runId

@[simp] theorem get?_empty (runId : String) :
    (empty : MemoryWorkflowStore V).get? runId = none := rfl

theorem get?_save (store : MemoryWorkflowStore V) (run : WorkflowRun V) (runId : String) :
    (store.save run).get? runId = if runId = run.runId then some run else store.get? runId :=
  Dict.get?_set _ _ _ _

end MemoryWorkflowStore

end ClawEngine.Workflows
