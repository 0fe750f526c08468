import ClawEngine.Core.Pool

/-!
# The lazily created engine

`SQLAlchemySessionStore._ensure_engine` and `_engine_and_tables`. Every protocol method starts with
them, and a store is shared by threads, so each read and each write of an attribute and each
operation on the lock is an operation of its own. What an attempt to initialise comes to, between
`create_engine` and `create_all`, is drawn from `attempts`.

`E` are the engines and `T` the tables.
-/

set_option autoImplicit false

namespace ClawEngine.Persistence.LazyEngine

open ClawEngine.Core

variable {E T : Type}

/-- What the body of the `try` raises: an error of SQLAlchemy, which is wrapped, or another. -/
inductive AttemptError
  | sqlAlchemyError (className : String)
  | other (className : String)
  deriving DecidableEq

/-- What leaves `_engine_and_tables`. -/
inductive InitError
  | sessionStoreError (message stage : String)
  | other (className : String)
  | assertionError
  deriving DecidableEq

/-- The engine with its two tables. -/
structure Initialised (E T : Type) where
  engine : E
  sessions : T
  processed : T

/-- The operations on the attributes and the lock of a store. -/
inductive AttrOp (E T : Type)
  | getEngine
  | getSessions
  | getProcessed
  | setEngine (engine : E)
  | setSessions (sessions : T)
  | setProcessed (processed : T)
  | acquire
  | release
  | attempt

/-- What each is answered with. -/
abbrev AttrOp.Ans : AttrOp E T → Type
  | .getEngine => Option E
  | .getSessions | .getProcessed => Option T
  | .setEngine _ | .setSessions _ | .setProcessed _ | .acquire | .release => Unit
  | .attempt => Except AttemptError (Initialised E T)

/-- The attributes of a store and its lock. -/
structure Attributes (E T : Type) where
  engine : Option E := none
  sessions : Option T := none
  processed : Option T := none
  locked : Bool := false
  attempts : Nat → Except AttemptError (Initialised E T)
  tried : Nat := 0

/-- What an operation does. -/
def attrHandler : Handler (AttrOp E T) AttrOp.Ans (Attributes E T)
  | .getEngine, s => (s.engine, s)
  | .getSessions, s => (s.sessions, s)
  | .getProcessed, s => (s.processed, s)
  | .setEngine engine, s => ((), { s with engine := some engine })
  | .setSessions sessions, s => ((), { s with sessions := some sessions })
  | .setProcessed processed, s => ((), { s with processed := some processed })
  | .acquire, s => ((), { s with locked := true })
  | .release, s => ((), { s with locked := false })
  | .attempt, s => (s.attempts s.tried, { s with tried := s.tried + 1 })

/-- `acquire` waits while the lock is held. -/
def attrWaits : AttrOp E T → Attributes E T → Bool
  | .acquire, s => s.locked
  | _, _ => false

/-- The exception that an attempt raises. -/
def AttemptError.raised : AttemptError → InitError
  | .sqlAlchemyError className =>
    .sessionStoreError ("failed to initialize engine or create schema: " ++ className) "init"
  | .other className => .other className

/-- What `_engine_and_tables` returns; each is what was read of an attribute. -/
abbrev Read (E T : Type) : Type := Option E × Option T × Option T

/-- Programs over the attributes. -/
abbrev AttrProg (E T : Type) : Type := Prog (AttrOp E T) AttrOp.Ans (Except InitError (Read E T))

/-! ## The code -/

/-- `return engine, self._sessions, self._processed`. -/
def readTables (engine : Option E) : AttrProg E T :=
  .vis .getSessions fun sessions => .vis .getProcessed fun processed =>
    .ret (.ok (engine, sessions, processed))

/-- `assert self._processed is not None`. -/
def assertProcessed (engine : Option E) : AttrProg E T :=
  .vis .getProcessed fun
    | none => .ret (.error .assertionError)
    | some _ => readTables engine

/-- `assert self._sessions is not None`. -/
def assertSessions (engine : Option E) : AttrProg E T :=
  .vis .getSessions fun
    | none => .ret (.error .assertionError)
    | some _ => assertProcessed engine

/-- `return self._engine`, without the lock. -/
def readEngine : AttrProg E T := .vis .getEngine assertSessions

/-- The `with` block is left with a value to return. -/
def leaving (engine : Option E) : AttrProg E T := .vis .release fun _ => assertSessions engine

/-- `return self._engine`, with the lock held. -/
def readLocked : AttrProg E T := .vis .getEngine leaving

/-- The `with` block is left by an exception. -/
def failing (e : AttemptError) : AttrProg E T := .vis .release fun _ => .ret (.error e.raised)

/-- The `with` block ends. -/
def ending : AttrProg E T := .vis .release fun _ => readEngine

/-- `self._engine = engine`. -/
def assignEngine (x : Initialised E T) : AttrProg E T := .vis (.setEngine x.engine) fun _ => ending

/-- `self._processed = processed`. -/
def assignProcessed (x : Initialised E T) : AttrProg E T :=
  .vis (.setProcessed x.processed) fun _ => assignEngine x

/-- `self._sessions = sessions`. -/
def assignSessions (x : Initialised E T) : AttrProg E T :=
  .vis (.setSessions x.sessions) fun _ => assignProcessed x

/-- The `try` statement. -/
def attempting : AttrProg E T :=
  .vis .attempt fun
    | .error e => failing e
    | .ok x => assignSessions x

/-- The check inside the lock. -/
def rechecking : AttrProg E T :=
  .vis .getEngine fun
    | some _ => readLocked
    | none => attempting

/-- `with self._engine_lock:`. -/
def locking : AttrProg E T := .vis .acquire fun _ => rechecking

/-- `_engine_and_tables`, which starts with `_ensure_engine`. -/
def engineAndTables : AttrProg E T :=
  .vis .getEngine fun
    | some _ => readEngine
    | none => locking

end ClawEngine.Persistence.LazyEngine
