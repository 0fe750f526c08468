import ClawEngine.Core.Dict
import ClawEngine.Identity.Contracts

/-!
# InMemoryIdentityProvider

`engine/identity/memory.py`. Users are found by their raw reference; what they may do is kept by
their id. Skills and workflows are allowed unless they are denied.
-/

set_option autoImplicit false

namespace ClawEngine.Identity

open ClawEngine.Core

structure InMemoryIdentityProvider where
  users : Dict String User := ∅
  authorized : Dict String (List String) := ∅
  deniedSkills : Dict String (List String) := ∅
  deniedWorkflows : Dict String (List String) := ∅

namespace InMemoryIdentityProvider

variable (I : InMemoryIdentityProvider)

/-- `resolve_user`; `none` is `UnknownUser`. -/
def resolveUser (rawUserRef : String) : Option User := I.users.get? rawUserRef

/-- `authorized_workspaces`. -/
def authorizedWorkspaces (user : User) : List String := (I.authorized.get? user.userId).getD []

/-- `can_access_workspace`. -/
def canAccessWorkspace (user : User) (workspaceId : String) : Bool :=
  workspaceId ∈ I.authorizedWorkspaces user

/-- What it answers as an `IdentityProvider`. -/
def answers : IdentityProvider where
  canAccessWorkspace := I.canAccessWorkspace
  canUseSkill user _ skill := skill ∉ (I.deniedSkills.get? user.userId).getD []
  canRunWorkflow user _ workflow := workflow ∉ (I.deniedWorkflows.get? user.userId).getD []

end InMemoryIdentityProvider

end ClawEngine.Identity
