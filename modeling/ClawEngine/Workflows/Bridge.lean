import ClawEngine.Context.Workspace
import ClawEngine.Identity.Contracts
import ClawEngine.Workflows.Service

/-!
# Reading and starting a run through the tool bridge

`engine/workflows/bridge.py`. `get` looks the run up first, and checks the permissions on the run
that was found; `invoke` checks them on the name it is given, and leaves it to the service whether
there is such a workflow.
-/

set_option autoImplicit false

namespace ClawEngine.Workflows

open ClawEngine.Core ClawEngine.Context ClawEngine.Identity

variable {V : Type}

/-- The exceptions of the bridge. -/
inductive BridgeError
  | workflowRunNotFound (runId : String)
  | workflowNotAllowed (workspaceId workflow : String)
  | context (e : ContextError)
  deriving DecidableEq, Repr

/-- What the bridge asks beside its store: the permissions and the workspaces. -/
structure WorkflowToolBridge where
  identity : IdentityProvider
  resolver : WorkspaceResolver

/-- `WorkflowService.get`, which is the store's. -/
def serviceGet (store : MemoryWorkflowStore V) (runId : String) :
    Except BridgeError (WorkflowRun V) :=
  match store.get? runId with
  | none => .error (.workflowRunNotFound runId)
  | some run => .ok run

/-- The checks of `get` on the run that was found, in their order. -/
def WorkflowToolBridge.permit (bridge : WorkflowToolBridge) (principal : Principal)
    (run : WorkflowRun V) : Except BridgeError (WorkflowRun V) :=
  let denied := .error (.workflowNotAllowed principal.workspaceId run.name)
  if !bridge.identity.canAccessWorkspace principal.user principal.workspaceId then denied
  else if run.ownerWorkspaceId ≠ some principal.workspaceId then denied
  else
    match bridge.resolver.resolve principal.workspaceId principal.user.userId with
    | .error e => .error (.context e)
    | .ok ws =>
      if run.name ∉ ws.allowedWorkflows then denied
      else if !bridge.identity.canRunWorkflow principal.user principal.workspaceId run.name then
        denied
      else .ok run

/-- `WorkflowToolBridge.get`. -/
def WorkflowToolBridge.get (bridge : WorkflowToolBridge) (store : MemoryWorkflowStore V)
    (runId : String) (principal : Principal) : Except BridgeError (WorkflowRun V) := do
  let run ← serviceGet store runId
  bridge.permit principal run

section Get

variable {bridge : WorkflowToolBridge} {store : MemoryWorkflowStore V} {runId : String}
  {principal : Principal} {run : WorkflowRun V}

theorem get_unknown (h : store.get? runId = none) :
    bridge.get store runId principal = .error (.workflowRunNotFound runId) := by
  rw [WorkflowToolBridge.get, serviceGet, h]
  rfl

theorem get_known (h : store.get? runId = some run) :
    bridge.get store runId principal = bridge.permit principal run := by
  rw [WorkflowToolBridge.get, serviceGet, h]
  rfl

/-- A run of another workspace is denied, whatever else the caller may do. -/
theorem permit_foreign (h : run.ownerWorkspaceId ≠ some principal.workspaceId) :
    bridge.permit principal run =
      .error (.workflowNotAllowed principal.workspaceId run.name) := by
  simp only [WorkflowToolBridge.permit, if_pos h, ite_self]

/-- **What is let through**: the run itself, owned by the caller's workspace, allowed there and to
the caller. -/
theorem permit_eq_ok {out : WorkflowRun V} : bridge.permit principal run = .ok out ↔
    out = run ∧ bridge.identity.canAccessWorkspace principal.user principal.workspaceId = true ∧
      run.ownerWorkspaceId = some principal.workspaceId ∧
      (∃ ws, bridge.resolver.resolve principal.workspaceId principal.user.userId = .ok ws ∧
        run.name ∈ ws.allowedWorkflows) ∧
      bridge.identity.canRunWorkflow principal.user principal.workspaceId run.name = true := by
  unfold WorkflowToolBridge.permit
  cases haccess : bridge.identity.canAccessWorkspace principal.user principal.workspaceId with
  | false => simp
  | true =>
    by_cases howner : run.ownerWorkspaceId = some principal.workspaceId
    · cases hresolve : bridge.resolver.resolve principal.workspaceId principal.user.userId with
      | error e => simp [howner]
      | ok ws =>
        by_cases hallowed : run.name ∈ ws.allowedWorkflows
        · cases hrun : bridge.identity.canRunWorkflow principal.user principal.workspaceId run.name
          · simp [howner, hallowed]
          · simp [howner, hallowed, eq_comm]
        · simp [howner, hallowed]
    · simp [howner]

end Get

/-! ## Starting a run -/

/-- What leaves `invoke`: an exception of the bridge, or one of the service. -/
inductive InvokeError
  | bridge (e : BridgeError)
  | service (e : Stop)
  deriving DecidableEq

structure ToolInvocationResult where
  runId : String
  status : WorkflowStatus
  deriving DecidableEq, Repr

/-- The checks of `invoke`, in their order. -/
def WorkflowToolBridge.admit (bridge : WorkflowToolBridge) (principal : Principal) (name : String) :
    Except BridgeError Unit :=
  let denied := .error (.workflowNotAllowed principal.workspaceId name)
  if !bridge.identity.canAccessWorkspace principal.user principal.workspaceId then denied
  else
    match bridge.resolver.resolve principal.workspaceId principal.user.userId with
    | .error e => .error (.context e)
    | .ok ws =>
      if name ∉ ws.allowedWorkflows then denied
      else if !bridge.identity.canRunWorkflow principal.user principal.workspaceId name then denied
      else .ok ()

/-- `WorkflowToolBridge.invoke`. -/
def WorkflowToolBridge.invoke {Q ε : Type} (bridge : WorkflowToolBridge)
    (S : WorkflowService V Q ε) (fuel : Nat) (name : String) (params : Option (Dict String V))
    (principal : Principal) : Act (WorkflowWorld V ε) InvokeError ToolInvocationResult :=
  match bridge.admit principal name with
  | .error e => Act.raise (.bridge e)
  | .ok () => do
    let run ← (S.run fuel name params none (some principal.workspaceId)).mapError .service
    return { runId := run.runId, status := run.status }

/-- What lets a caller use a workflow: access to the workspace, which resolves and allows the
workflow, and the permission to run it. -/
structure WorkflowToolBridge.Gates (bridge : WorkflowToolBridge) (principal : Principal)
    (name : String) : Prop where
  access : bridge.identity.canAccessWorkspace principal.user principal.workspaceId = true
  allowed : ∃ ws, bridge.resolver.resolve principal.workspaceId principal.user.userId = .ok ws ∧
    name ∈ ws.allowedWorkflows
  run : bridge.identity.canRunWorkflow principal.user principal.workspaceId name = true

section Gates

variable {bridge : WorkflowToolBridge} {principal : Principal} {name : String}

/-- What `invoke` lets through. -/
theorem admit_eq_ok : bridge.admit principal name = .ok () ↔ bridge.Gates principal name := by
  unfold WorkflowToolBridge.admit
  constructor
  · intro h
    split at h
    next => cases h
    next haccess =>
      split at h
      next => cases h
      next ws hresolve =>
        split at h
        next => cases h
        next hallowed =>
          split at h
          next => cases h
          next hrun =>
            exact ⟨by simpa using haccess, ⟨ws, hresolve, not_not.mp hallowed⟩, by simpa using hrun⟩
  · rintro ⟨haccess, ⟨ws, hresolve, hallowed⟩, hrun⟩
    simp only [haccess, hresolve, hallowed, hrun, Bool.not_true, Bool.false_eq_true, if_false,
      not_true_eq_false]

/-- **The gates of `get` are those of `invoke`**, on a run of the caller's workspace. -/
theorem permit_iff_gates {run out : WorkflowRun V} : bridge.permit principal run = .ok out ↔
    out = run ∧ run.ownerWorkspaceId = some principal.workspaceId ∧
      bridge.Gates principal run.name := by
  rw [permit_eq_ok]
  constructor
  · rintro ⟨hout, haccess, howner, hallowed, hrun⟩
    exact ⟨hout, howner, haccess, hallowed, hrun⟩
  · rintro ⟨hout, howner, haccess, hallowed, hrun⟩
    exact ⟨hout, haccess, howner, hallowed, hrun⟩

end Gates

end ClawEngine.Workflows
