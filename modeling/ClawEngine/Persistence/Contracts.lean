import ClawEngine.Orchestration.Engine

/-!
# Sessions and the store protocol

`engine/persistence/contracts.py`. A session is found by its natural key, the triple of workspace,
channel and external thread. What `uuid.uuid4().hex` and `time.time()` answer is an argument of the
operation that asks, so that one supply can be given to several stores.
-/

set_option autoImplicit false

namespace ClawEngine.Persistence

open ClawEngine.Core ClawEngine.Orchestration

variable {V : Type}

/-- The natural key `(workspace_id, channel, external_thread_key)`. -/
structure Key where
  workspaceId : String
  channel : String
  externalThreadKey : String
  deriving DecidableEq, Repr

structure Session (V : Type) where
  sessionId : String
  workspaceId : String
  channel : String
  externalThreadKey : String
  backendName : String
  backendThreadId : Option V := none
  roundCount : Int := 0
  maxRounds : Int := 50
  lastActive : PyFloat := .finite 0
  deriving DecidableEq

/-- The natural key of a session. -/
def Session.key (s : Session V) : Key := ⟨s.workspaceId, s.channel, s.externalThreadKey⟩

/-- `Session.with_turn(backend_thread_id=.., now=..)`. -/
def Session.withTurn (s : Session V) (backendThreadId : Option V) (now : PyFloat) : Session V :=
  { s with backendThreadId, roundCount := s.roundCount + 1, lastActive := now }

@[simp] theorem Session.withTurn_sessionId (s : Session V) (tid : Option V) (now : PyFloat) :
    (s.withTurn tid now).sessionId = s.sessionId := rfl

@[simp] theorem Session.withTurn_key (s : Session V) (tid : Option V) (now : PyFloat) :
    (s.withTurn tid now).key = s.key := rfl

@[simp] theorem Session.withTurn_backendName (s : Session V) (tid : Option V) (now : PyFloat) :
    (s.withTurn tid now).backendName = s.backendName := rfl

@[simp] theorem Session.withTurn_maxRounds (s : Session V) (tid : Option V) (now : PyFloat) :
    (s.withTurn tid now).maxRounds = s.maxRounds := rfl

@[simp] theorem Session.withTurn_roundCount (s : Session V) (tid : Option V) (now : PyFloat) :
    (s.withTurn tid now).roundCount = s.roundCount + 1 := rfl

/-- The arguments of `get_or_create`. -/
structure CreateArgs where
  key : Key
  backendName : String
  maxRounds : Int

/-- The session `get_or_create` builds for a new key. -/
def Session.create (uuid : String) (a : CreateArgs) : Session V :=
  { sessionId := uuid, workspaceId := a.key.workspaceId, channel := a.key.channel
    externalThreadKey := a.key.externalThreadKey, backendName := a.backendName
    maxRounds := a.maxRounds }

@[simp] theorem Session.create_sessionId (uuid : String) (a : CreateArgs) :
    (Session.create uuid a : Session V).sessionId = uuid := rfl

@[simp] theorem Session.create_key (uuid : String) (a : CreateArgs) :
    (Session.create uuid a : Session V).key = a.key := rfl

/-- The protocol `SessionStore` over a store state `σ`. `getOrCreate` is given the id the call
would draw. -/
structure SessionStore (V σ : Type) where
  getOrCreate : (uuid : String) → CreateArgs → σ → Except StoreError (Session V) × σ
  save : Session V → σ → Except StoreError Unit × σ
  isProcessed : (sessionId messageId : String) → σ → Except StoreError Bool × σ
  markProcessed : (sessionId messageId : String) → σ → Except StoreError Unit × σ

/-- A call of one of the four operations. -/
inductive StoreOp (V : Type)
  | getOrCreate (uuid : String) (a : CreateArgs)
  | save (session : Session V)
  | isProcessed (sessionId messageId : String)
  | markProcessed (sessionId messageId : String)

/-- What an operation returns when it does not raise. -/
@[reducible] def StoreOp.Res : StoreOp V → Type
  | .getOrCreate _ _ => Session V
  | .save _ => Unit
  | .isProcessed _ _ => Bool
  | .markProcessed _ _ => Unit

/-- An operation performed by a store. -/
def SessionStore.perform {σ : Type} (S : SessionStore V σ) :
    (op : StoreOp V) → σ → Except StoreError op.Res × σ
  | .getOrCreate uuid a, s => S.getOrCreate uuid a s
  | .save session, s => S.save session s
  | .isProcessed sid mid, s => S.isProcessed sid mid s
  | .markProcessed sid mid, s => S.markProcessed sid mid s

end ClawEngine.Persistence
