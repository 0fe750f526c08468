import ClawEngine.Core.Dict

/-!
# Where a workspace's environment comes from

`engine/context`: `config.py`, `user_config.py` and `secrets.py`. The protocols are functions, which
may raise when the source behind them is not in memory; the in-memory providers never do.
-/

set_option autoImplicit false

namespace ClawEngine.Context

open ClawEngine.Core

/-- What resolving a workspace raises: the resolver's own check, or a provider's exception by its
class and its text. -/
inductive ContextError
  | invalidWorkspaceId (workspaceId : String)
  | provider (className text : String)
  deriving DecidableEq, Repr

/-- `ConfigProvider.get_env`. -/
abbrev ConfigProvider := (workspaceId : String) → Except ContextError (Dict String String)

/-- `UserConfigProvider.get_env`. -/
abbrev UserConfigProvider :=
  (userId workspaceId : String) → Except ContextError (Dict String String)

/-- `SecretProvider.get_secrets`. -/
abbrev SecretProvider := (workspaceId : String) → Except ContextError (Dict String String)

/-- `LayeredConfigProvider`: the workspace's layer over the global one. -/
def layeredConfigProvider (globalEnv : Dict String String)
    (workspaceEnv : Dict String (Dict String String)) : ConfigProvider :=
  fun workspaceId => .ok (globalEnv.update ((workspaceEnv.get? workspaceId).getD ∅))

/-- `InMemoryUserConfigProvider`: one layer for each user and workspace. -/
def inMemoryUserConfigProvider (userEnv : Dict String (Dict String (Dict String String))) :
    UserConfigProvider :=
  fun userId workspaceId =>
    .ok ((((userEnv.get? userId).getD ∅).get? workspaceId).getD ∅)

/-- `InMemorySecretProvider`. -/
def inMemorySecretProvider (secrets : Dict String (Dict String String)) : SecretProvider :=
  fun workspaceId => .ok ((secrets.get? workspaceId).getD ∅)

/-- `_REDACTED`. -/
def redacted : String := "***"

/-- `redact`: the values at sensitive keys replaced. -/
def redact (env : Dict String String) (sensitiveKeys : List String) : Dict String String :=
  env.mapItems fun k v => if k ∈ sensitiveKeys then redacted else v

@[simp] theorem keys_redact (env : Dict String String) (sensitiveKeys : List String) :
    (redact env sensitiveKeys).keys = env.keys := Dict.keys_mapItems _ _

theorem get?_redact (env : Dict String String) (sensitiveKeys : List String) (k : String) :
    (redact env sensitiveKeys).get? k =
      (env.get? k).map fun v => if k ∈ sensitiveKeys then redacted else v :=
  Dict.get?_mapItems _ _ _

/-! ## Secrets under the same keys -/

/-- Two dictionaries with the same set of keys. -/
def SameKeys (d e : Dict String String) : Prop := ∀ k, k ∈ d.keys ↔ k ∈ e.keys

/-- Two dictionaries with the same keys in the same order. -/
def SameKeyOrder (d e : Dict String String) : Prop := d.keys = e.keys

/-- `d == e`. -/
def SameItems (d e : Dict String String) : Prop := ∀ k, d.get? k = e.get? k

/-- **Redaction forgets the values of the secrets**: environments that agree outside the secrets'
keys, and have the same ones, are redacted to equal dictionaries. -/
theorem redact_update_sameItems (base : Dict String String) {s t : Dict String String}
    (h : SameKeys s t) :
    SameItems (redact (base.update s) s.keys) (redact (base.update t) t.keys) := by
  intro k
  rw [get?_redact, get?_redact, Dict.get?_update, Dict.get?_update]
  by_cases hk : k ∈ s.keys
  · have hk' : k ∈ t.keys := (h k).mp hk
    obtain ⟨v, hv⟩ := Option.isSome_iff_exists.mp (Dict.mem_keys.mp hk)
    obtain ⟨v', hv'⟩ := Option.isSome_iff_exists.mp (Dict.mem_keys.mp hk')
    rw [hv, hv', Option.some_or, Option.some_or, Option.map_some, Option.map_some, if_pos hk,
      if_pos hk']
  · have hk' : k ∉ t.keys := fun ht => hk ((h k).mpr ht)
    rw [Dict.get?_eq_none.mpr hk, Dict.get?_eq_none.mpr hk', Option.none_or]
    simp only [hk, hk', if_false]

/-- With their keys in the same order, the redacted dictionaries are the same, order included. -/
theorem redact_update_eq (base : Dict String String) {s t : Dict String String}
    (h : SameKeyOrder s t) :
    redact (base.update s) s.keys = redact (base.update t) t.keys := by
  refine Dict.ext_get? ?_ (redact_update_sameItems base fun k => by rw [show s.keys = t.keys from h])
  rw [keys_redact, keys_redact]
  exact Dict.keys_update_congr rfl h

end ClawEngine.Context
