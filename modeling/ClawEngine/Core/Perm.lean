import Mathlib.Tactic.Common

/-!
# Policy, effect, request, matchers

Access control models in Casbin's terms. A request and a rule have named text fields. A matcher says
which rules match a request, and an effect makes a decision of the effects of the rules that matched.
A decision depends only on the set of rules: neither their order nor a repetition matters.
-/

set_option autoImplicit false

namespace ClawEngine.Core

variable {R P ρ : Type}

namespace Perm

/-- A text in a matcher: a field of the request, a field of the rule, or a literal. -/
inductive Term (R P : Type)
  | request (field : R)
  | policy (field : P)
  | text (s : String)

/-- `==`, `&&` and `||`. -/
inductive Matcher (R P : Type)
  | eq (a b : Term R P)
  | and (m n : Matcher R P)
  | or (m n : Matcher R P)

/-- `some(where (p.eft == eft))` and `!e`. -/
inductive Effect
  | someWhere (eft : String)
  | not (e : Effect)

def Term.eval (r : R → String) (p : P → String) : Term R P → String
  | .request field => r field
  | .policy field => p field
  | .text s => s

def Matcher.eval (r : R → String) (p : P → String) : Matcher R P → Bool
  | .eq a b => a.eval r p == b.eval r p
  | .and m n => m.eval r p && n.eval r p
  | .or m n => m.eval r p || n.eval r p

/-- The decision on the effects of the rules that matched. -/
def Effect.eval (efts : List String) : Effect → Bool
  | .someWhere eft => efts.contains eft
  | .not e => !e.eval efts

end Perm

/-- A model: its matcher, its effect, and the field that holds the effect of a rule. -/
structure PermModel (R P : Type) where
  matcher : Perm.Matcher R P
  effect : Perm.Effect
  eft : P

namespace PermModel

open Perm

variable {M : PermModel R P} {field : ρ → P → String} {rules rules' : List ρ} {r : R → String}

/-- The decision on a request, by rules whose fields `field` reads. -/
def decide (M : PermModel R P) (field : ρ → P → String) (rules : List ρ) (r : R → String) : Bool :=
  M.effect.eval ((rules.filter fun p => M.matcher.eval r (field p)).map fun p => field p M.eft)

/-- **Some rule overrides**: without a match of that effect, the request is granted. -/
theorem decide_unless {eft : String} (heffect : M.effect = .not (.someWhere eft)) :
    M.decide field rules r = false ↔
      ∃ p ∈ rules, M.matcher.eval r (field p) = true ∧ field p M.eft = eft := by
  rw [decide, heffect, Effect.eval, Effect.eval, Bool.not_eq_false', List.contains_iff_mem,
    List.mem_map]
  constructor
  · rintro ⟨p, hp, heft⟩
    obtain ⟨hp, hmatch⟩ := List.mem_filter.mp hp
    exact ⟨p, hp, hmatch, heft⟩
  · rintro ⟨p, hp, hmatch, heft⟩
    exact ⟨p, List.mem_filter.mpr ⟨hp, hmatch⟩, heft⟩

end PermModel

end ClawEngine.Core
