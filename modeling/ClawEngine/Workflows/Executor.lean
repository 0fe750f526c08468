import ClawEngine.Workflows.Stops

/-!
# WorkflowService over any executor

`engine/workflows/service.py` and `executor.py`. `Service.lean` performs each run at once; here an
executor is given the task and does with it what it likes: it calls it, now or later, and returns or
raises. What leaves a task is what leaves `_execute` when its handler stops as it may (`Stops.lean`).
-/

set_option autoImplicit false

namespace ClawEngine.Workflows

open ClawEngine.Core

variable {V ε : Type}

/-! ## Executors -/

/-- `submit(fn)`: a program that may call `fn`, and what that raises is its answer. What an executor
does with `fn` after `submit` is no part of it. -/
abbrev WorkflowExecutor : Type :=
  Prog Unit (fun _ => Except SubmitError Unit) (Except SubmitError Unit)

/-- `InlineExecutor`. -/
def inlineExecutor : WorkflowExecutor := .vis () .ret

/-- `executor.submit(task)`. -/
def submit (executor : WorkflowExecutor) (task : Sv V ε Unit) : Sv V ε Unit :=
  executor.run fun _ w => task w

/-! ## The service -/

structure SubmittingService (V ε : Type) where
  registry : Dict String (StoppingHandler V ε)
  executor : WorkflowExecutor

namespace SubmittingService

variable (S : SubmittingService V ε)

/-- `run`. -/
def run (name : String) (params : Option (Dict String V))
    (rerunOf ownerWorkspaceId : Option String) : Sv V ε (WorkflowRun V) :=
  match S.registry.get? name with
  | none => Act.raise (.service (.raised (.workflowNotRegistered name)))
  | some handler => do
    let runId ← served newRunId
    served (saveRun { runId, name, params := params.getD ∅, rerunOf, ownerWorkspaceId })
    submit S.executor (executeStopping runId handler)
    served (getRun runId)

/-- `rerun`. -/
def rerun (runId : String) : Sv V ε (WorkflowRun V) := do
  let old ← served (getRun runId)
  if !old.status.isTerminal then
    Act.raise (.service (.raised (.workflowNotTerminal runId old.status)))
  else S.run old.name (some old.params) (some runId) old.ownerWorkspaceId

end SubmittingService

end ClawEngine.Workflows
