import ClawEngine.Context.Providers
import ClawEngine.Core.Outcome
import ClawEngine.Posix.Path
import ClawEngine.Core.PyText

/-!
# Resolving a workspace

`engine/context/workspace.py`. A workspace id becomes a directory under the root and an environment:
the configuration, the user's layer over it, and the secrets over both. The resolved workspace
knows which of its keys are secret, and shows itself without their values.
-/

set_option autoImplicit false

namespace ClawEngine.Context

open ClawEngine.Core

/-- `[A-Za-z0-9_.-]`. -/
def isNameChar (c : Char) : Bool :=
  c.isAlphanum || c = '_' || c = '.' || c = '-'

/-- A full match of `[A-Za-z0-9_.-]+` that is neither `.` nor `..`. -/
def isPlainName (s : String) : Bool :=
  !s.isEmpty && s.toList.all isNameChar && s ≠ "." && s ≠ ".."

/-- `_validate_workspace_id`. -/
def validateWorkspaceId (workspaceId : String) : Except ContextError Unit :=
  if isPlainName workspaceId then .ok () else .error (.invalidWorkspaceId workspaceId)

structure WorkspaceSpec where
  allowedSkills : List String := []
  allowedWorkflows : List String := []
  backendName : Option String := none
  maxRounds : Option Int := none

/-- `sensitiveKeys` are the elements of the frozen set, in the order they were put in. -/
structure ResolvedWorkspace where
  workspaceId : String
  cwd : String
  env : Dict String String
  sensitiveKeys : List String
  allowedSkills : List String := []
  allowedWorkflows : List String := []
  backendName : Option String := none
  maxRounds : Option Int := none

/-- `redacted_env`. -/
def ResolvedWorkspace.redactedEnv (ws : ResolvedWorkspace) : Dict String String :=
  redact ws.env ws.sensitiveKeys

/-- `__repr__`. -/
def ResolvedWorkspace.repr (py : Interpreter) (ws : ResolvedWorkspace) : String :=
  "ResolvedWorkspace(workspace_id=" ++ reprStr py ws.workspaceId ++
    ", cwd=" ++ reprStr py ws.cwd ++
    ", env=" ++ reprDict py ws.redactedEnv ++
    ", sensitive_keys=" ++ reprSet py ws.sensitiveKeys ++
    ", allowed_skills=" ++ reprTuple py ws.allowedSkills ++
    ", allowed_workflows=" ++ reprTuple py ws.allowedWorkflows ++
    ", backend_name=" ++ reprOption (reprStr py) ws.backendName ++
    ", max_rounds=" ++ reprOption toString ws.maxRounds ++ ")"

/-- What is printed are the fields, with the environment redacted. -/
theorem ResolvedWorkspace.repr_congr (py : Interpreter) {ws ws' : ResolvedWorkspace}
    (hid : ws.workspaceId = ws'.workspaceId) (hcwd : ws.cwd = ws'.cwd)
    (henv : ws.redactedEnv = ws'.redactedEnv) (hkeys : ws.sensitiveKeys = ws'.sensitiveKeys)
    (hskills : ws.allowedSkills = ws'.allowedSkills)
    (hworkflows : ws.allowedWorkflows = ws'.allowedWorkflows)
    (hbackend : ws.backendName = ws'.backendName) (hrounds : ws.maxRounds = ws'.maxRounds) :
    ws.repr py = ws'.repr py := by
  unfold ResolvedWorkspace.repr
  rw [hid, hcwd, henv, hkeys, hskills, hworkflows, hbackend, hrounds]

structure WorkspaceResolver where
  config : ConfigProvider
  secrets : SecretProvider
  root : String
  specs : Dict String WorkspaceSpec := ∅
  userConfig : Option UserConfigProvider := none

/-- The user's layer, when there is a user and a provider of their settings. -/
def WorkspaceResolver.userEnv (R : WorkspaceResolver) (workspaceId : String) :
    (userId : Option String) → Except ContextError (Dict String String)
  | none => .ok ∅
  | some userId =>
    match R.userConfig with
    | none => .ok ∅
    | some userConfig => userConfig userId workspaceId

/-- The workspace of an environment and its secrets. -/
def WorkspaceResolver.workspace (R : WorkspaceResolver) (workspaceId : String)
    (baseEnv secretEnv : Dict String String) : ResolvedWorkspace :=
  let spec := (R.specs.get? workspaceId).getD {}
  { workspaceId, cwd := Posix.pathJoin R.root workspaceId
    env := baseEnv.update secretEnv, sensitiveKeys := secretEnv.keys
    allowedSkills := spec.allowedSkills, allowedWorkflows := spec.allowedWorkflows
    backendName := spec.backendName, maxRounds := spec.maxRounds }

/-- `WorkspaceResolver.resolve`. -/
def WorkspaceResolver.resolve (R : WorkspaceResolver) (workspaceId : String)
    (userId : Option String := none) : Except ContextError ResolvedWorkspace := do
  validateWorkspaceId workspaceId
  let baseEnv ← R.config workspaceId
  let userEnv ← R.userEnv workspaceId userId
  let secretEnv ← R.secrets workspaceId
  return R.workspace workspaceId (baseEnv.update userEnv) secretEnv

/-! ## The same resolver with other secrets -/

/-- Resolved workspaces that differ at most in the values of their secrets; `R` relates what is
shown of their environments. -/
structure ResolvedWorkspace.Alike (R : Dict String String → Dict String String → Prop)
    (ws ws' : ResolvedWorkspace) : Prop where
  workspaceId : ws.workspaceId = ws'.workspaceId
  cwd : ws.cwd = ws'.cwd
  redactedEnv : R ws.redactedEnv ws'.redactedEnv
  sensitiveKeys : ∀ k, k ∈ ws.sensitiveKeys ↔ k ∈ ws'.sensitiveKeys
  allowedSkills : ws.allowedSkills = ws'.allowedSkills
  allowedWorkflows : ws.allowedWorkflows = ws'.allowedWorkflows
  backendName : ws.backendName = ws'.backendName
  maxRounds : ws.maxRounds = ws'.maxRounds

/-- Two providers answer alike for every workspace: they raise the same, or give dictionaries
related by `R`. -/
def SecretProvider.Alike (R : Dict String String → Dict String String → Prop)
    (p q : SecretProvider) : Prop :=
  ∀ workspaceId, SameOutcome R (p workspaceId) (q workspaceId)

section Secrets

variable {Q R : Dict String String → Dict String String → Prop} {r : WorkspaceResolver}
  {p q : SecretProvider}

/-- **Resolving shows only what redaction shows.** Where related secrets are redacted to related
dictionaries over every base, a resolver given the one or the other provider resolves alike. -/
theorem WorkspaceResolver.resolve_alike (hkeys : ∀ s t, Q s t → SameKeys s t)
    (hredact : ∀ base s t : Dict String String, Q s t →
      R (redact (base.update s) s.keys) (redact (base.update t) t.keys))
    (h : SecretProvider.Alike Q p q) (workspaceId : String) (userId : Option String) :
    SameOutcome (ResolvedWorkspace.Alike R) ({ r with secrets := p }.resolve workspaceId userId)
      ({ r with secrets := q }.resolve workspaceId userId) := by
  refine .bind_same (validateWorkspaceId workspaceId) fun _ => ?_
  refine .bind_same (r.config workspaceId) fun base => ?_
  refine .bind_same (r.userEnv workspaceId userId) fun user => ?_
  exact (h workspaceId).bind fun s t hst => {
    workspaceId := rfl
    cwd := rfl
    redactedEnv := hredact _ s t hst
    sensitiveKeys := hkeys s t hst
    allowedSkills := rfl
    allowedWorkflows := rfl
    backendName := rfl
    maxRounds := rfl }

/-- Two resolved workspaces print the same text. -/
def ResolvedWorkspace.SameRepr (py : Interpreter) (ws ws' : ResolvedWorkspace) : Prop :=
  ws.repr py = ws'.repr py

/-- With the keys in the same order, what a resolved workspace prints is the same text. -/
theorem WorkspaceResolver.resolve_repr (py : Interpreter)
    (h : SecretProvider.Alike SameKeyOrder p q) (workspaceId : String)
    (userId : Option String) :
    SameOutcome (ResolvedWorkspace.SameRepr py)
      ({ r with secrets := p }.resolve workspaceId userId)
      ({ r with secrets := q }.resolve workspaceId userId) := by
  refine .bind_same (validateWorkspaceId workspaceId) fun _ => ?_
  refine .bind_same (r.config workspaceId) fun base => ?_
  refine .bind_same (r.userEnv workspaceId userId) fun user => ?_
  refine (h workspaceId).bind fun s t hst => ?_
  have henv : redact ((base.update user).update s) s.keys =
      redact ((base.update user).update t) t.keys := redact_update_eq _ hst
  exact ResolvedWorkspace.repr_congr py rfl rfl henv hst rfl rfl rfl rfl

end Secrets

end ClawEngine.Context
