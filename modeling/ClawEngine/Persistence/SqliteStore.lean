import ClawEngine.Persistence.Database

/-!
# SqliteSessionStore

`engine/persistence/sqlite_store.py`. A store is its database; each operation is one or two
statements on one connection, which nothing interleaves with.
-/

set_option autoImplicit false

namespace ClawEngine.Persistence.SqliteStore

open ClawEngine.Core ClawEngine.Orchestration

/-- `SqliteSessionStore.get_or_create`. -/
def getOrCreate (uuid : String) (a : CreateArgs) (db : Db) :
    Except StoreError (Session String) × Db :=
  match db.selectSession .sqlite a.key with
  | .error e => (.error e, db)
  | .ok (row :: _) => (.ok row, db)
  | .ok [] =>
    match db.insertSession .sqlite (Session.create uuid a) with
    | .error e => (.error e, db)
    | .ok db' => (.ok (Session.create uuid a), db')

/-- `SqliteSessionStore.save`. -/
def save (s : Session String) (db : Db) : Except StoreError Unit × Db :=
  match db.updateSession .sqlite s with
  | .error e => (.error e, db)
  | .ok db' => (.ok (), db')

/-- `SqliteSessionStore.is_processed`. -/
def isProcessed (sid mid : String) (db : Db) : Except StoreError Bool × Db :=
  match db.selectProcessed .sqlite sid mid with
  | .error e => (.error e, db)
  | .ok rows => (.ok !rows.isEmpty, db)

/-- `SqliteSessionStore.mark_processed`: `INSERT OR IGNORE` skips a row that violates a
constraint. -/
def markProcessed (sid mid : String) (db : Db) : Except StoreError Unit × Db :=
  match db.insertProcessed .sqlite sid mid with
  | .error .integrityError => (.ok (), db)
  | .error e => (.error e, db)
  | .ok db' => (.ok (), db')

end SqliteStore

/-- `SqliteSessionStore` as a `SessionStore`. -/
def sqliteSessionStore : SessionStore String Db where
  getOrCreate := SqliteStore.getOrCreate
  save := SqliteStore.save
  isProcessed := SqliteStore.isProcessed
  markProcessed := SqliteStore.markProcessed

end ClawEngine.Persistence
