import ClawEngine.Channels.Webhook
import ClawEngine.Core.Act
import ClawEngine.Identity.Memory
import ClawEngine.Orchestration.Gateway

/-!
# ChannelRunner.handle_raw

`engine/channels/runner.py` with `engine/channels/identity_routing.py`: an inbound text is verified,
parsed, routed to the default workspace of its sender, handled there as a conversation, and answered
on the channel.

The payload's `message_id` may be any value, and the set of processed messages takes it as Python
compares it, so the store is given a text that tells such values apart (`messageKey`).
-/

set_option autoImplicit false

namespace ClawEngine.Channels

open ClawEngine.Core ClawEngine.Context ClawEngine.Identity ClawEngine.Orchestration
  ClawEngine.Persistence ClawEngine.Runtime

variable {V σ ε : Type}

structure RouteDecision where
  workspaceId : String
  userId : Option String := none
  deriving DecidableEq, Repr

/-- The exceptions of the router. -/
inductive RouteError
  | unknownUser (rawUserRef : String)
  | workspaceRoute (userId : String)
  | workspaceAccessDenied (userId workspaceId : String)
  deriving DecidableEq, Repr

/-- The exceptions that leave `handle_raw`. -/
inductive ChannelError (V : Type)
  | inbound (e : InboundError)
  | route (e : RouteError)
  | conversation (e : Raised V)
  | send (className text : String)

/-- `IdentityWorkspaceRouter.route`. -/
def route (identity : InMemoryIdentityProvider) (message : IncomingMessage) :
    Except RouteError RouteDecision :=
  match identity.resolveUser message.rawUserRef with
  | none => .error (.unknownUser message.rawUserRef)
  | some user =>
    match user.defaultWorkspace with
    | none => .error (.workspaceRoute user.userId)
    | some ws =>
      if !identity.canAccessWorkspace user ws then .error (.workspaceAccessDenied user.userId ws)
      else .ok { workspaceId := ws, userId := some user.userId }

/-- A message id as an element of the set of processed messages: ids that are equal in Python have
one text, as has the NaN, of which the decoder has one object for all payloads (a set takes an
object as equal to itself); a list or a dict raises. -/
def messageKey : Json → Except PyError (Option String)
  | .null => .ok none
  | .str s => .ok (some ("s" ++ s))
  | .arr _ => .error ⟨.typeError, "unhashable type: 'list'"⟩
  | .obj _ => .error ⟨.typeError, "unhashable type: 'dict'"⟩
  | v =>
    match v.number? with
    | some (.finite q) => .ok (some ("n" ++ toString q.num ++ "/" ++ toString q.den))
    | some (.inf negative) => .ok (some (if negative then "-inf" else "+inf"))
    | _ => .ok (some "nan")

/-- `WorkspaceConversationGateway.handle` of a message id that raises when the set is asked for it:
the session has been looked up by then. -/
def gatewayHandleUnhashable (resolver : WorkspaceResolver) (d : Draws) (g : GatewayCall)
    (e : PyError) : ConvProg V :=
  match resolver.resolve g.workspaceId g.userId with
  | .error e => .raise (.ofContext e)
  | .ok ws => .call (.store (.getOrCreate d.uuid (g.inWorkspace (V := V) ws).createArgs)) fun _ =>
      .raise (.other "TypeError" e.text)

/-- `WorkspaceConversationGateway.handle` with the message id of a payload. -/
def gatewayHandleJson (resolver : WorkspaceResolver) (d : Draws) (g : GatewayCall)
    (messageId : Json) : ConvProg V :=
  match messageKey messageId with
  | .ok messageId => gatewayHandle resolver d { g with messageId }
  | .error e => gatewayHandleUnhashable resolver d g e

/-- The runner, with the parts its collaborators are made of. -/
structure ChannelRunner where
  secret : String
  identity : InMemoryIdentityProvider
  resolver : WorkspaceResolver
  defaultBackendName : String

/-- What the runner acts on: the conversations, and the texts sent. -/
structure RunnerWorld (V σ ε : Type) where
  conversation : World σ ε
  sentTexts : List (ReplyTarget × V) := []

/-- The code of the runner. -/
abbrev RunnerAct (V σ ε A : Type) := Act (RunnerWorld V σ ε) (ChannelError V) A

namespace ChannelRunner

/-- The call the runner makes for a message, apart from its id. -/
def gatewayCall (R : ChannelRunner) (msg : IncomingMessage) (decision : RouteDecision) :
    GatewayCall :=
  { workspaceId := decision.workspaceId, channel := msg.channel
    externalThreadKey := msg.externalThreadKey, text := msg.text
    backendName := R.defaultBackendName, userId := decision.userId }

/-- `self._conversation.handle(..)`. -/
def converse (R : ChannelRunner) (S : SessionStore V σ) (turn : TurnFn V ε) (d : Draws)
    (msg : IncomingMessage) (decision : RouteDecision) :
    RunnerAct V σ ε (AgentRunResult V) := fun w =>
  let out := (gatewayHandleJson R.resolver d (R.gatewayCall msg decision) msg.messageId).run
    (handler S turn) w.conversation
  (out.1.mapError .conversation, { w with conversation := out.2 })

/-- `WebhookChannel.send_text`. -/
def sendText (target : ReplyTarget) (text : V) : RunnerAct V σ ε Unit := fun w =>
  (.ok (), { w with sentTexts := w.sentTexts ++ [(target, text)] })

/-- `ChannelRunner.handle_raw`. -/
def handleRaw (R : ChannelRunner) (py : WebhookLib) (S : SessionStore V σ) (turn : TurnFn V ε)
    (d : Draws) (raw : String) (headers : Dict String String) :
    RunnerAct V σ ε (AgentRunResult V) := do
  Act.readE fun _ => (verifyInbound py R.secret raw headers).mapError .inbound
  let msg ← Act.readE fun _ => (parseInbound py raw).mapError .inbound
  let decision ← Act.readE fun _ => (route R.identity msg).mapError .route
  let result ← R.converse S turn d msg decision
  sendText { channel := msg.channel, externalThreadKey := msg.externalThreadKey
             rawUserRef := msg.rawUserRef } result.finalText
  return result

/-! ## Over any gateway and router -/

end ChannelRunner

/-- The part of the protocol `MessagingGateway` that the runner calls. -/
structure MessagingGateway (V σ ε : Type) where
  verifyInbound : (raw : String) → (headers : Dict String String) → Except (ChannelError V) Unit
  parseInbound : (raw : String) → Except (ChannelError V) IncomingMessage
  sendText : ReplyTarget → V → RunnerAct V σ ε Unit

/-- The protocol `WorkspaceRouter`. -/
abbrev WorkspaceRouter (V : Type) := IncomingMessage → Except (ChannelError V) RouteDecision

/-- `WebhookChannel` as a gateway. -/
def webhookGateway (py : WebhookLib) (secret : String) : MessagingGateway V σ ε where
  verifyInbound raw headers := (verifyInbound py secret raw headers).mapError .inbound
  parseInbound raw := (parseInbound py raw).mapError .inbound
  sendText := ChannelRunner.sendText

/-- The target of the reply to a message. -/
def IncomingMessage.replyTarget (msg : IncomingMessage) : ReplyTarget :=
  { channel := msg.channel, externalThreadKey := msg.externalThreadKey
    rawUserRef := msg.rawUserRef }

namespace ChannelRunner

/-- `ChannelRunner.handle_raw` over any gateway and router. -/
def handleRawOver (G : MessagingGateway V σ ε) (router : WorkspaceRouter V) (R : ChannelRunner)
    (S : SessionStore V σ) (turn : TurnFn V ε) (d : Draws) (raw : String)
    (headers : Dict String String) : RunnerAct V σ ε (AgentRunResult V) := do
  Act.readE fun _ => G.verifyInbound raw headers
  let msg ← Act.readE fun _ => G.parseInbound raw
  let decision ← Act.readE fun _ => router msg
  let result ← R.converse S turn d msg decision
  G.sendText msg.replyTarget result.finalText
  return result

/-- The runner over a `WebhookChannel` and the router by identity. -/
theorem handleRaw_eq (R : ChannelRunner) (py : WebhookLib) (S : SessionStore V σ)
    (turn : TurnFn V ε) (d : Draws) (raw : String) (headers : Dict String String) :
    R.handleRaw py S turn d raw headers =
      handleRawOver (webhookGateway py R.secret)
        (fun msg => (route R.identity msg).mapError .route) R S turn d raw headers := rfl

end ChannelRunner

end ClawEngine.Channels
