import ClawEngine.Core.Act
import ClawEngine.Core.Perm
import ClawEngine.Core.PyText
import ClawEngine.Identity.Contracts

/-!
# CasbinIdentityProvider

`adapters/identity/casbin/provider.py` and `model.conf`. Access to workspaces is the base
provider's. Skills and workflows are decided by a Casbin enforcer over its rules, which are added,
removed and read again from the policy file.

Casbin is a parameter, with what its documentation promises: it evaluates the model over the current
set of rules, adds and removes single rules, and replaces the set by the rules of the file. `φ` is
what it finds at the path of the policy file.
-/

set_option autoImplicit false

namespace ClawEngine.Identity

open ClawEngine.Core ClawEngine.Core.Perm

variable {σ φ : Type}

/-! ## model.conf -/

/-- `r = sub, ws, obj, act`. -/
inductive RequestField
  | sub | ws | obj | act

/-- `p = sub, ws, obj, act, eft`. -/
inductive PolicyField
  | sub | ws | obj | act | eft

structure Rule where
  sub : String
  ws : String
  obj : String
  act : String
  eft : String := "deny"
  deriving DecidableEq, Repr

def Rule.field (rule : Rule) : PolicyField → String
  | .sub => rule.sub
  | .ws => rule.ws
  | .obj => rule.obj
  | .act => rule.act
  | .eft => rule.eft

/-- `enforce(sub, ws, obj, act)`, as a request. -/
def requestOf (sub ws obj act : String) : RequestField → String
  | .sub => sub
  | .ws => ws
  | .obj => obj
  | .act => act

/-- `(r.f == p.f || p.f == "*")`. -/
def orAny (f : RequestField) (g : PolicyField) : Matcher RequestField PolicyField :=
  .or (.eq (.request f) (.policy g)) (.eq (.policy g) (.text "*"))

/-- `model.conf`: `e = !some(where (p.eft == deny))`. -/
def modelConf : PermModel RequestField PolicyField where
  matcher :=
    .and (.and (.and (orAny .sub .sub) (orAny .ws .ws)) (orAny .obj .obj)) (orAny .act .act)
  effect := .not (.someWhere "deny")
  eft := .eft

/-! ## The enforcer -/

/-- What the adapter calls of an enforcer. -/
structure Casbin (σ φ : Type) where
  enforce : σ → (sub ws obj act : String) → Bool
  addPolicy : Rule → σ → Bool × σ
  removePolicy : Rule → σ → Bool × σ
  loadPolicy : φ → σ → Except String σ

/-- A Casbin that keeps its promises. `fileRules` are the rules in what it finds at the path, if it
can read and parse that. -/
structure LawfulCasbin (σ φ : Type) extends Casbin σ φ where
  rules : σ → List Rule
  fileRules : φ → Option (List Rule)
  enforce_eq : ∀ s sub ws obj act,
    enforce s sub ws obj act = modelConf.decide Rule.field (rules s) (requestOf sub ws obj act)
  addPolicy_fst : ∀ rule s, (addPolicy rule s).1 = true ↔ rule ∉ rules s
  mem_addPolicy : ∀ rule s r, r ∈ rules (addPolicy rule s).2 ↔ r = rule ∨ r ∈ rules s
  removePolicy_fst : ∀ rule s, (removePolicy rule s).1 = true ↔ rule ∈ rules s
  mem_removePolicy : ∀ rule s r, r ∈ rules (removePolicy rule s).2 ↔ r ∈ rules s ∧ r ≠ rule
  loadPolicy_none : ∀ file s, fileRules file = none → ∃ e, loadPolicy file s = .error e
  loadPolicy_some : ∀ file s rs, fileRules file = some rs →
    ∃ s', loadPolicy file s = .ok s' ∧ ∀ r, r ∈ rules s' ↔ r ∈ rs

/-! ## The provider -/

/-- The exceptions of the adapter. -/
inductive PolicyError
  | value (message : String)
  | casbinIdentityProvider (message : String)
  deriving DecidableEq, Repr

structure CasbinIdentityProvider (σ : Type) where
  base : IdentityProvider
  policyPath : String
  enforcer : σ

/-- `_ALLOWED_EFFECTS`. -/
def allowedEffects : List String := ["allow", "deny"]

namespace CasbinIdentityProvider

variable (K : Casbin σ φ) (py : Interpreter)

/-- Its answers: `can_access_workspace` is the base's. -/
def answers (c : CasbinIdentityProvider σ) : IdentityProvider where
  canAccessWorkspace := c.base.canAccessWorkspace
  canUseSkill user workspaceId skill := K.enforce c.enforcer user.userId workspaceId skill "use"
  canRunWorkflow user workspaceId workflow :=
    K.enforce c.enforcer user.userId workspaceId workflow "run"

/-- A change of the rules, by the enforcer. -/
def change {A : Type} (f : σ → A × σ) : Act (CasbinIdentityProvider σ) PolicyError A := fun c =>
  (.ok (f c.enforcer).1, { c with enforcer := (f c.enforcer).2 })

/-- The check of an effect. -/
def checkEffect (eft : String) : Except PolicyError Unit :=
  if eft ∉ allowedEffects then
    .error (.value ("eft must be one of ('allow', 'deny'), got " ++ reprStr py eft))
  else .ok ()

/-- `add_policy`. -/
def addPolicy (rule : Rule) : Act (CasbinIdentityProvider σ) PolicyError Bool := do
  Act.readE fun _ => checkEffect py rule.eft
  change (K.addPolicy rule)

/-- `remove_policy`. -/
def removePolicy (rule : Rule) : Act (CasbinIdentityProvider σ) PolicyError Bool := do
  Act.readE fun _ => checkEffect py rule.eft
  change (K.removePolicy rule)

/-- `reload_policy`; the file is missing, or Casbin finds something there. -/
def reloadPolicy (file : Option φ) : Act (CasbinIdentityProvider σ) PolicyError Unit := fun c =>
  match file with
  | none =>
    (.error (.casbinIdentityProvider ("Casbin policy file not found: " ++ c.policyPath)), c)
  | some file =>
    match K.loadPolicy file c.enforcer with
    | .error exc =>
      (.error (.casbinIdentityProvider
        ("Failed to reload Casbin policy from " ++ c.policyPath ++ ": " ++ exc)), c)
    | .ok enforcer => (.ok (), { c with enforcer })

end CasbinIdentityProvider

end ClawEngine.Identity
