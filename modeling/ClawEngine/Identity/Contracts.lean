/-!
# Users and what they may do

`engine/identity/contracts.py`. An identity provider is modelled by its answers.
-/

set_option autoImplicit false

namespace ClawEngine.Identity

structure User where
  userId : String
  displayName : String
  roles : List String := []
  defaultWorkspace : Option String := none
  deriving DecidableEq, Repr

/-- A user in a workspace. -/
structure Principal where
  user : User
  workspaceId : String
  deriving DecidableEq, Repr

/-- The answers of an `IdentityProvider`. -/
structure IdentityProvider where
  canAccessWorkspace : User → (workspaceId : String) → Bool
  canUseSkill : User → (workspaceId skill : String) → Bool
  canRunWorkflow : User → (workspaceId workflow : String) → Bool

end ClawEngine.Identity
