import ClawEngine.Context.Workspace
import ClawEngine.Orchestration.Conversation

/-!
# WorkspaceConversationGateway.handle

`engine/orchestration/workspace_gateway.py`: the workspace is resolved, and the conversation is
handled with its directory, its environment, its backend and its round limit. The trace is given
the redacted environment.
-/

set_option autoImplicit false

namespace ClawEngine.Orchestration

open ClawEngine.Core ClawEngine.Context ClawEngine.Persistence

variable {V σ ε : Type}

/-- The arguments of `WorkspaceConversationGateway.handle`. -/
structure GatewayCall where
  workspaceId : String
  channel : String
  externalThreadKey : String
  text : String
  backendName : String
  messageId : Option String := none
  model : Option String := none
  userId : Option String := none

/-- An exception of the resolver as one of the gateway. -/
def Raised.ofContext : ContextError → Raised V
  | .invalidWorkspaceId workspaceId => .invalidWorkspaceId workspaceId
  | .provider className text => .other className text

/-- `ws.backend_name or backend_name`. -/
def chosenBackend (ws : ResolvedWorkspace) (backendName : String) : String :=
  match ws.backendName with
  | none => backendName
  | some name => if name.isEmpty then backendName else name

/-- `ws.max_rounds or DEFAULT_MAX_ROUNDS`. -/
def chosenMaxRounds (ws : ResolvedWorkspace) : Int :=
  match ws.maxRounds with
  | none => defaultMaxRounds
  | some n => if n = 0 then defaultMaxRounds else n

/-- The call of `ConversationService.handle` in a resolved workspace. -/
def GatewayCall.inWorkspace (g : GatewayCall) (ws : ResolvedWorkspace) : Call V :=
  { workspaceId := g.workspaceId, channel := g.channel, externalThreadKey := g.externalThreadKey
    text := g.text, cwd := ws.cwd, env := ws.env
    backendName := chosenBackend ws g.backendName, maxRounds := chosenMaxRounds ws
    messageId := g.messageId, model := g.model, userId := g.userId
    traceMetadata := some ((∅ : Observability.TraceMetadata).set "redacted_env" ws.redactedEnv) }

/-- `WorkspaceConversationGateway.handle`. -/
def gatewayHandle (resolver : WorkspaceResolver) (d : Draws) (g : GatewayCall) : ConvProg V :=
  match resolver.resolve g.workspaceId g.userId with
  | .error e => .raise (.ofContext e)
  | .ok ws => handle d (g.inWorkspace ws)

/-- Calls of the gateway, one after the other: what each returned or raised, and what they leave. -/
def runGateway (resolver : WorkspaceResolver) (S : SessionStore V σ) (turn : TurnFn V ε) :
    List (Draws × GatewayCall) → World σ ε →
      List (Except (Raised V) (Runtime.AgentRunResult V)) × World σ ε
  | [], w => ([], w)
  | (d, g) :: calls, w =>
    let (outcome, w) := (gatewayHandle resolver d g).run (handler S turn) w
    let (outcomes, w) := runGateway resolver S turn calls w
    (outcome :: outcomes, w)

end ClawEngine.Orchestration
