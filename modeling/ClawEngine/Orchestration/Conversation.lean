import ClawEngine.Core.Prog
import ClawEngine.Persistence.Contracts

/-!
# ConversationService.handle

`engine/orchestration/conversation.py`. `handle` is a program over the operations it asks of its
collaborators: the four of the session store and the backend turn. The same program is performed
alone, call after call, and interleaved with other calls over one store, one operation at a time.

`handler` is the meaning of the operations over a session store and an engine. An exception an
operation raises leaves `handle`, which has no `try`.
-/

set_option autoImplicit false

namespace ClawEngine.Orchestration

open ClawEngine.Core ClawEngine.Runtime ClawEngine.Observability ClawEngine.Persistence

variable {V σ ε : Type}

/-- `DEFAULT_MAX_ROUNDS`. -/
def defaultMaxRounds : Int := 50

/-- The arguments of `handle`. -/
structure Call (V : Type) where
  workspaceId : String
  channel : String
  externalThreadKey : String
  text : String
  cwd : String
  env : Dict String String
  backendName : String
  maxRounds : Int := defaultMaxRounds
  messageId : Option String := none
  model : Option String := none
  userId : Option String := none
  traceMetadata : Option TraceMetadata := none

/-- The natural key a call is on. -/
def Call.key (c : Call V) : Key := ⟨c.workspaceId, c.channel, c.externalThreadKey⟩

/-- What `uuid.uuid4().hex` and `time.time()` answer when a call asks them; it asks each at most
once. -/
structure Draws where
  uuid : String
  now : PyFloat

/-! ## The program -/

/-- The operations `handle` asks: those of the session store and the turn. -/
inductive ConvOp (V : Type)
  | store (op : StoreOp V)
  | runTurn (t : TurnArgs V)

/-- What an operation returns when it does not raise. -/
@[reducible] def ConvOp.Res : ConvOp V → Type
  | .store op => op.Res
  | .runTurn _ => AgentRunResult V

/-- The answer to an operation. -/
abbrev ConvAns (V : Type) (op : ConvOp V) : Type := Except (Raised V) op.Res

/-- Programs over the operations of `handle`. -/
abbrev ConvProg (V : Type) := ProgE (ConvOp V) ConvOp.Res (Raised V) (AgentRunResult V)

/-- The arguments `handle` looks a session up with. -/
def Call.createArgs (c : Call V) : CreateArgs := ⟨c.key, c.backendName, c.maxRounds⟩

/-- The arguments `handle` runs a turn with, on the session it found. -/
def Call.turnArgs (c : Call V) (session : Session V) : TurnArgs V :=
  { backendName := session.backendName, prompt := c.text, cwd := c.cwd, env := c.env
    backendThreadId := session.backendThreadId, model := c.model
    metadata := some (((((∅ : Dict String (Option String)).set "workspace_id" c.workspaceId).set
      "session_id" session.sessionId).set "channel" c.channel).set "user_id" c.userId)
    traceMetadata := c.traceMetadata }

/-- After the round was saved: mark the message, return the result. -/
def handleMark (c : Call V) (session : Session V) (result : AgentRunResult V) : ConvProg V :=
  match c.messageId with
  | some mid => .call (.store (.markProcessed session.sessionId mid)) fun _ => .ret (.ok result)
  | none => .ret (.ok result)

/-- After the turn: save the session with one more round. -/
def handleSave (d : Draws) (c : Call V) (session : Session V) (result : AgentRunResult V) :
    ConvProg V :=
  .call (.store (.save (session.withTurn result.backendThreadId d.now))) fun _ =>
    handleMark c session result

/-- After the duplicate check: the round limit, then the turn. -/
def handleTurn (d : Draws) (c : Call V) (session : Session V) : ConvProg V :=
  if session.roundCount ≥ session.maxRounds then
    .raise (.sessionRoundsExceeded session.sessionId session.maxRounds)
  else .call (.runTurn (c.turnArgs session)) (handleSave d c session)

/-- On the session found: the duplicate check. -/
def handleCheck (d : Draws) (c : Call V) (session : Session V) : ConvProg V :=
  match c.messageId with
  | some mid =>
    .call (.store (.isProcessed session.sessionId mid)) fun (dup : Bool) =>
      if dup then .raise (.duplicateMessage session.sessionId mid)
      else handleTurn d c session
  | none => handleTurn d c session

/-- `ConversationService.handle`. -/
def handle (d : Draws) (c : Call V) : ConvProg V :=
  .call (.store (.getOrCreate d.uuid c.createArgs)) (handleCheck d c)

theorem handleMark_some {c : Call V} {mid : String} (h : c.messageId = some mid)
    (session : Session V) (result : AgentRunResult V) : handleMark c session result =
      .call (.store (.markProcessed session.sessionId mid)) fun _ => .ret (.ok result) := by
  simp only [handleMark, h]

theorem handleMark_none {c : Call V} (h : c.messageId = none) (session : Session V)
    (result : AgentRunResult V) : handleMark c session result = .ret (.ok result) := by
  simp only [handleMark, h]

theorem handleTurn_exceeded (d : Draws) (c : Call V) {session : Session V}
    (h : session.roundCount ≥ session.maxRounds) : handleTurn d c session =
      .raise (.sessionRoundsExceeded session.sessionId session.maxRounds) := if_pos h

theorem handleTurn_runs (d : Draws) (c : Call V) {session : Session V}
    (h : ¬ session.roundCount ≥ session.maxRounds) : handleTurn d c session =
      .call (.runTurn (c.turnArgs session)) (handleSave d c session) := if_neg h

theorem handleCheck_some (d : Draws) {c : Call V} {mid : String} (h : c.messageId = some mid)
    (session : Session V) : handleCheck d c session =
      .call (.store (.isProcessed session.sessionId mid)) fun (dup : Bool) =>
        if dup then .raise (.duplicateMessage session.sessionId mid)
        else handleTurn d c session := by
  simp only [handleCheck, h]

theorem handleCheck_none (d : Draws) {c : Call V} (h : c.messageId = none)
    (session : Session V) : handleCheck d c session = handleTurn d c session := by
  simp only [handleCheck, h]

/-! ## The operations over a store and an engine -/

/-- What the operations act on. -/
structure World (σ ε : Type) where
  store : σ
  engine : ε

/-- A turn: its answer and the engine state it leaves. -/
abbrev TurnFn (V ε : Type) := TurnArgs V → ε → Except (Raised V) (AgentRunResult V) × ε

/-- A store's exception as one of `handle`. -/
def liftStore {A : Type} : Except StoreError A → Except (Raised V) A
  | .error e => .error (.store e)
  | .ok a => .ok a

@[simp] theorem liftStore_ok {A : Type} (a : A) :
    (liftStore (.ok a) : Except (Raised V) A) = .ok a := rfl

@[simp] theorem liftStore_error {A : Type} (e : StoreError) :
    (liftStore (.error e) : Except (Raised V) A) = .error (.store e) := rfl

/-- The meaning of the operations of `handle`. -/
def handler (S : SessionStore V σ) (turn : TurnFn V ε) :
    Handler (ConvOp V) (ConvAns V) (World σ ε)
  | .store op, w =>
    (liftStore (S.perform op w.store).1, { w with store := (S.perform op w.store).2 })
  | .runTurn t, w => ((turn t w.engine).1, { w with engine := (turn t w.engine).2 })

/-- `handle`, performed alone. -/
def runHandle (S : SessionStore V σ) (turn : TurnFn V ε) (d : Draws) (c : Call V)
    (w : World σ ε) : Except (Raised V) (AgentRunResult V) × World σ ε :=
  (handle d c).run (handler S turn) w

/-- A turn of the engine, without a callback. -/
def engineTurn {ω τ σ' : Type} (engine : Engine V ω τ σ') : TurnFn V (EngineState V ω τ) :=
  fun t s => runTurn engine t none s

end ClawEngine.Orchestration
