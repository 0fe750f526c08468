import ClawEngine.Core.Prog
import ClawEngine.Persistence.Database

/-!
# SQLAlchemySessionStore

`adapters/persistence/sqlalchemy/store.py` after its engine was created, with `_validate_field` of
`validation.py`. `get_or_create` runs up to three transactions, so it is a program over them; the
store performs it alone, and `Laws/SessionRace.lean` interleaves it.
-/

set_option autoImplicit false

namespace ClawEngine.Persistence.SqlAlchemyStore

open ClawEngine.Core ClawEngine.Orchestration

/-! ## Validation -/

/-- `_FIELD_CAPS`. -/
def fieldCaps : List (String × Nat) :=
  [("workspace_id", 128), ("channel", 64), ("external_thread_key", 256), ("backend_name", 64),
    ("session_id", 64), ("backend_thread_id", 256), ("message_id", 256)]

/-- `_validate_field`. -/
def validateField (name : String) (value : Option String) (nullable : Bool := false) :
    Except StoreError Unit :=
  match value with
  | none => if nullable then .ok () else .error (.valueError s!"{name} must not be None")
  | some v =>
    if v.length = 0 then .error (.valueError s!"{name} must not be empty")
    else
      match fieldCaps.lookup name with
      | none => .ok ()
      | some cap =>
        if v.length > cap then
          .error (.valueError s!"{name} exceeds maximum length {cap} (got {v.length})")
        else .ok ()

/-- The four checks `get_or_create` starts with. -/
def validateArgs (a : CreateArgs) : Except StoreError Unit := do
  validateField "workspace_id" a.key.workspaceId
  validateField "channel" a.key.channel
  validateField "external_thread_key" a.key.externalThreadKey
  validateField "backend_name" a.backendName

/-- The checks `save` starts with. -/
def validateSession (s : Session String) : Except StoreError Unit := do
  validateField "session_id" s.sessionId
  match s.backendThreadId with
  | none => pure ()
  | some tid => validateField "backend_thread_id" (some tid) true

/-- The checks `is_processed` and `mark_processed` start with. -/
def validateMessage (sid mid : String) : Except StoreError Unit := do
  validateField "session_id" sid
  validateField "message_id" mid

/-! ## The transactions of get_or_create -/

/-- One transaction: the lookup of a natural key, or the insertion of a row. -/
inductive TxOp
  | selectSession (k : Key)
  | insertSession (s : Session String)

/-- What a transaction returns when it does not raise. -/
@[reducible] def TxOp.Res : TxOp → Type
  | .selectSession _ => Option (Session String)
  | .insertSession _ => Unit

/-- Programs over the transactions. -/
abbrev TxProg := ProgE TxOp TxOp.Res StoreError (Session String)

/-- `Result.one_or_none()`. -/
def oneOrNone {A : Type} : List A → Except StoreError (Option A)
  | [] => .ok none
  | [row] => .ok (some row)
  | _ => .error .multipleResults

/-- Phase 3: re-fetch the winner's row. -/
def refetch (a : CreateArgs) : TxProg :=
  .call (.selectSession a.key) fun
    | some row => .ret (.ok row)
    | none => .raise .sessionNotFound

/-- Phase 2: the insertion; an `IntegrityError` leads to phase 3. -/
def tryInsert (uuid : String) (a : CreateArgs) : TxProg :=
  .vis (.insertSession (Session.create uuid a)) fun
    | .ok _ => .ret (.ok (Session.create uuid a))
    | .error .integrityError => refetch a
    | .error e => .raise e

/-- Phase 1: the existence check. -/
def lookup (uuid : String) (a : CreateArgs) : TxProg :=
  .call (.selectSession a.key) fun
    | some row => .ret (.ok row)
    | none => tryInsert uuid a

/-- `SQLAlchemySessionStore.get_or_create`. -/
def getOrCreateProg (uuid : String) (a : CreateArgs) : TxProg :=
  match validateArgs a with
  | .error e => .raise e
  | .ok () => lookup uuid a

/-- The answers of the transactions. -/
abbrev TxAns (op : TxOp) : Type := Except StoreError op.Res

/-- The transactions on a database. A transaction that raises is rolled back. -/
def txHandler (D : Dialect) : Handler TxOp TxAns Db
  | .selectSession k, db => ((db.selectSession D k).bind oneOrNone, db)
  | .insertSession s, db =>
    match db.insertSession D s with
    | .ok db' => (.ok (), db')
    | .error e => (.error e, db)

/-! ## The store -/

/-- `SQLAlchemySessionStore.get_or_create`, performed alone. -/
def getOrCreate (D : Dialect) (uuid : String) (a : CreateArgs) (db : Db) :
    Except StoreError (Session String) × Db :=
  (getOrCreateProg uuid a).run (txHandler D) db

/-- `SQLAlchemySessionStore.save`. -/
def save (D : Dialect) (s : Session String) (db : Db) : Except StoreError Unit × Db :=
  match validateSession s with
  | .error e => (.error e, db)
  | .ok () =>
    match db.updateSession D s with
    | .error e => (.error e, db)
    | .ok db' => (.ok (), db')

/-- `SQLAlchemySessionStore.is_processed`. -/
def isProcessed (D : Dialect) (sid mid : String) (db : Db) : Except StoreError Bool × Db :=
  match validateMessage sid mid with
  | .error e => (.error e, db)
  | .ok () => (((db.selectProcessed D sid mid).bind oneOrNone).map Option.isSome, db)

/-- `SQLAlchemySessionStore.mark_processed`. -/
def markProcessed (D : Dialect) (sid mid : String) (db : Db) : Except StoreError Unit × Db :=
  match validateMessage sid mid with
  | .error e => (.error e, db)
  | .ok () =>
    match db.insertProcessed D sid mid with
    | .error .integrityError => (.ok (), db)
    | .error e => (.error e, db)
    | .ok db' => (.ok (), db')

end SqlAlchemyStore

/-- `SQLAlchemySessionStore` as a `SessionStore`. -/
def sqlAlchemySessionStore (D : Dialect) : SessionStore String Db where
  getOrCreate := SqlAlchemyStore.getOrCreate D
  save := SqlAlchemyStore.save D
  isProcessed := SqlAlchemyStore.isProcessed D
  markProcessed := SqlAlchemyStore.markProcessed D

end ClawEngine.Persistence
