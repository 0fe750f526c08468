import ClawEngine.Persistence.SqlAlchemyStore

/-!
# SQLAlchemySessionStore on a server that collates

`schema.py` declares its columns without a collation, so the server's default decides when two texts
are equal: in the `WHERE` clauses, in the `UNIQUE` constraint on the natural key, in the two primary
keys and in the foreign key. A server compares the **weights** of texts. SQLite and PostgreSQL
compare the texts themselves; MySQL's default gives texts that differ in case one weight.

`Tables` are the two tables under such a comparison, and `collatedStore` is the store on them. Where
the weight of a text is the text, it is the store of `SqlAlchemyStore.lean` (`perform_tables`).
-/

set_option autoImplicit false

namespace ClawEngine.Persistence

open ClawEngine.Core ClawEngine.Orchestration

/-- What a server compares of a text. -/
abbrev Collation := String → String

/-- `_ALLOWED_SCHEMES`: `sqlite`, `mysql+pymysql` and `postgresql+psycopg`. -/
inductive Scheme
  | sqlite
  | mysqlPymysql
  | postgresqlPsycopg
  deriving DecidableEq, Repr

/-- The default comparison of the servers; MySQL's is a parameter. -/
def Scheme.collation (mysql : Collation) : Scheme → Collation
  | .sqlite => id
  | .mysqlPymysql => mysql
  | .postgresqlPsycopg => id

/-- The weights of the columns of a natural key. -/
def Key.weight (c : Collation) (k : Key) : Key :=
  ⟨c k.workspaceId, c k.channel, c k.externalThreadKey⟩

/-- The weight of the natural key of a row. -/
def Session.keyWeight (c : Collation) (s : Session String) : Key := s.key.weight c

/-- The weight of the primary key of a row. -/
def Session.idWeight (c : Collation) (s : Session String) : String := c s.sessionId

/-- The weights of the primary key of a processed message. -/
def messageWeight (c : Collation) (row : String × String) : String × String := (c row.1, c row.2)

/-- The two tables. -/
@[ext]
structure Tables (c : Collation) where
  sessions : List (Session String)
  processed : List (String × String)
  naturalKey : (sessions.map (Session.keyWeight c)).Nodup
  primaryKey : (sessions.map (Session.idWeight c)).Nodup
  processedKey : (processed.map (messageWeight c)).Nodup

namespace Tables

variable {c : Collation}

theorem nodup_map_nil {A B : Type} (f : A → B) : (([] : List A).map f).Nodup := List.nodup_nil

/-- After `CREATE TABLE`. -/
def empty : Tables c :=
  ⟨[], [], nodup_map_nil (Session.keyWeight c), nodup_map_nil (Session.idWeight c),
    nodup_map_nil (messageWeight c)⟩

/-- No row has a key or an id like that of `s`. -/
abbrev New (s : Session String) (db : Tables c) : Prop :=
  s.keyWeight c ∉ db.sessions.map (Session.keyWeight c) ∧
    s.idWeight c ∉ db.sessions.map (Session.idWeight c)

theorem nodup_map_snoc {A B : Type} {f : A → B} {l : List A} {x : A} (h : (l.map f).Nodup)
    (hx : f x ∉ l.map f) : ((l ++ [x]).map f).Nodup := by
  rw [List.map_append, List.nodup_append]
  refine ⟨h, List.nodup_singleton _, ?_⟩
  intro y hy z hz heq
  rw [List.map_singleton, List.mem_singleton] at hz
  exact hx (hz ▸ heq ▸ hy)

/-- One more session row. -/
def addSession (s : Session String) (db : Tables c) (h : db.New s) : Tables c :=
  { db with
    sessions := db.sessions ++ [s]
    naturalKey := nodup_map_snoc db.naturalKey h.1
    primaryKey := nodup_map_snoc db.primaryKey h.2 }

/-- The rows after an update of the session of one id. -/
def updatedRows (c : Collation) (s : Session String) (rows : List (Session String)) :
    List (Session String) :=
  rows.map fun x => if x.idWeight c = s.idWeight c then x.overwrite s else x

/-- What an update keeps of the rows. -/
theorem map_updatedRows {B : Type} (f : Session String → B)
    (hf : ∀ x s : Session String, f (x.overwrite s) = f x) (c : Collation) (s : Session String)
    (rows : List (Session String)) : (updatedRows c s rows).map f = rows.map f := by
  rw [updatedRows, List.map_map]
  apply List.map_congr_left
  intro x _
  simp only [Function.comp_apply]
  split
  · exact hf x s
  · rfl

/-- The session row of one id overwritten. -/
def setSession (s : Session String) (db : Tables c) : Tables c :=
  { db with
    sessions := updatedRows c s db.sessions
    naturalKey := by rw [map_updatedRows _ fun _ _ => rfl]; exact db.naturalKey
    primaryKey := by rw [map_updatedRows _ fun _ _ => rfl]; exact db.primaryKey }

/-- No processed row is like `(sid, mid)`. -/
def Lacks (sid mid : String) (db : Tables c) : Prop :=
  messageWeight c (sid, mid) ∉ db.processed.map (messageWeight c)

theorem lacks_iff {sid mid : String} {db : Tables c} :
    (∀ row ∈ db.processed, messageWeight c row ≠ messageWeight c (sid, mid)) ↔
      db.Lacks sid mid := by
  rw [Lacks, List.mem_map]
  exact ⟨fun h ⟨row, hrow, heq⟩ => h row hrow heq, fun h row hrow heq => h ⟨row, hrow, heq⟩⟩

instance (sid mid : String) (db : Tables c) : Decidable (db.Lacks sid mid) :=
  decidable_of_iff _ lacks_iff

/-- One more processed row. -/
def addProcessed (sid mid : String) (db : Tables c) (h : db.Lacks sid mid) : Tables c :=
  { db with
    processed := db.processed ++ [(sid, mid)]
    processedKey := nodup_map_snoc db.processedKey h }

/-! ## Statements -/

/-- `SELECT * FROM sessions WHERE` the three columns of the natural key are equal to `k`'s. -/
def selectSession (D : Dialect) (k : Key) (db : Tables c) :
    Except StoreError (List (Session String)) :=
  match D.refusal [k.workspaceId, k.channel, k.externalThreadKey] [] with
  | some e => .error e
  | none => .ok (db.sessions.filter (·.keyWeight c = k.weight c))

/-- `INSERT INTO sessions`. -/
def insertSession (D : Dialect) (s : Session String) (db : Tables c) :
    Except StoreError (Tables c) :=
  match Db.rowRefusal D s with
  | some e => .error e
  | none =>
    match D.float s.lastActive with
    | .error e => .error e
    | .ok lastActive =>
      if h : db.New s then .ok (db.addSession { s with lastActive } h) else .error .integrityError

/-- `UPDATE sessions SET .. WHERE session_id = ..`. -/
def updateSession (D : Dialect) (s : Session String) (db : Tables c) :
    Except StoreError (Tables c) :=
  match Db.updateRefusal D s with
  | some e => .error e
  | none =>
    if s.idWeight c ∈ db.sessions.map (Session.idWeight c) then
      match D.float s.lastActive with
      | .error e => .error e
      | .ok lastActive => .ok (db.setSession { s with lastActive })
    else .ok db

/-- `SELECT .. FROM processed_messages WHERE session_id = .. AND message_id = ..`. -/
def selectProcessed (D : Dialect) (sid mid : String) (db : Tables c) :
    Except StoreError (List (String × String)) :=
  match D.refusal [sid, mid] [] with
  | some e => .error e
  | none => .ok (db.processed.filter fun row => messageWeight c row = messageWeight c (sid, mid))

/-- `INSERT INTO processed_messages`. -/
def insertProcessed (D : Dialect) (sid mid : String) (db : Tables c) :
    Except StoreError (Tables c) :=
  match D.refusal [sid, mid] [] with
  | some e => .error e
  | none =>
    if h : db.Lacks sid mid then
      if D.enforcesForeignKeys ∧ c sid ∉ db.sessions.map (Session.idWeight c) then
        .error .integrityError
      else .ok (db.addProcessed sid mid h)
    else .error .integrityError

end Tables

/-! ## The store -/

namespace Collated

open SqlAlchemyStore

variable {c : Collation}

/-- The transactions on the tables. A transaction that raises is rolled back. -/
def txHandler (c : Collation) (D : Dialect) : Handler TxOp TxAns (Tables c)
  | .selectSession k, db => ((db.selectSession D k).bind oneOrNone, db)
  | .insertSession s, db =>
    match db.insertSession D s with
    | .ok db' => (.ok (), db')
    | .error e => (.error e, db)

/-- `SQLAlchemySessionStore.get_or_create`, performed alone. -/
def getOrCreate (D : Dialect) (uuid : String) (a : CreateArgs) (db : Tables c) :
    Except StoreError (Session String) × Tables c :=
  (getOrCreateProg uuid a).run (txHandler c D) db

/-- `SQLAlchemySessionStore.save`. -/
def save (D : Dialect) (s : Session String) (db : Tables c) : Except StoreError Unit × Tables c :=
  match validateSession s with
  | .error e => (.error e, db)
  | .ok () =>
    match db.updateSession D s with
    | .error e => (.error e, db)
    | .ok db' => (.ok (), db')

/-- `SQLAlchemySessionStore.is_processed`. -/
def isProcessed (D : Dialect) (sid mid : String) (db : Tables c) :
    Except StoreError Bool × Tables c :=
  match validateMessage sid mid with
  | .error e => (.error e, db)
  | .ok () => (((db.selectProcessed D sid mid).bind oneOrNone).map Option.isSome, db)

/-- `SQLAlchemySessionStore.mark_processed`. -/
def markProcessed (D : Dialect) (sid mid : String) (db : Tables c) :
    Except StoreError Unit × Tables c :=
  match validateMessage sid mid with
  | .error e => (.error e, db)
  | .ok () =>
    match db.insertProcessed D sid mid with
    | .error .integrityError => (.ok (), db)
    | .error e => (.error e, db)
    | .ok db' => (.ok (), db')

end Collated

/-- `SQLAlchemySessionStore` on a server that compares by `c`. -/
def collatedStore (c : Collation) (D : Dialect) : SessionStore String (Tables c) where
  getOrCreate := Collated.getOrCreate D
  save := Collated.save D
  isProcessed := Collated.isProcessed D
  markProcessed := Collated.markProcessed D

/-! ## The exact comparison -/

/-- A database as tables that compare texts themselves. -/
def Db.tables (db : Db) : Tables id where
  sessions := db.sessions
  processed := db.processed
  naturalKey := db.naturalKey
  primaryKey := db.primaryKey
  processedKey := by
    have hid : messageWeight id = id := rfl
    rw [hid, List.map_id]
    exact db.processedKey

namespace Db

variable {D : Dialect}

theorem insertSession_tables (s : Session String) (db : Db) :
    db.tables.insertSession D s = (db.insertSession D s).map Db.tables := by
  unfold Tables.insertSession Db.insertSession
  cases rowRefusal D s with
  | some e => rfl
  | none =>
    cases D.float s.lastActive with
    | error e => rfl
    | ok x =>
      by_cases h : db.New s
      · have h' : db.tables.New s := h
        simp only [dif_pos h, dif_pos h', Except.map]
        rfl
      · have h' : ¬ db.tables.New s := h
        simp only [dif_neg h, dif_neg h', Except.map]

theorem updateSession_tables (s : Session String) (db : Db) :
    db.tables.updateSession D s = (db.updateSession D s).map Db.tables := by
  unfold Tables.updateSession Db.updateSession
  cases updateRefusal D s with
  | some e => rfl
  | none =>
    by_cases h : s.sessionId ∈ db.sessions.map Session.sessionId
    · have h' : s.idWeight id ∈ db.tables.sessions.map (Session.idWeight id) := h
      simp only [if_pos h, if_pos h']
      cases D.float s.lastActive <;> rfl
    · have h' : s.idWeight id ∉ db.tables.sessions.map (Session.idWeight id) := h
      simp only [if_neg h, if_neg h']
      rfl

theorem selectProcessed_tables (sid mid : String) (db : Db) :
    db.tables.selectProcessed D sid mid = db.selectProcessed D sid mid := rfl

theorem insertProcessed_tables (sid mid : String) (db : Db) :
    db.tables.insertProcessed D sid mid = (db.insertProcessed D sid mid).map Db.tables := by
  have hrows : db.tables.processed.map (messageWeight id) = db.processed := List.map_id _
  unfold Tables.insertProcessed Db.insertProcessed
  cases D.refusal [sid, mid] [] with
  | some e => rfl
  | none =>
    by_cases h : (sid, mid) ∉ db.processed
    · have h' : db.tables.Lacks sid mid := by
        rw [Tables.Lacks, hrows]
        exact h
      simp only [dif_pos h, dif_pos h']
      by_cases hforeign : D.enforcesForeignKeys ∧ sid ∉ db.sessions.map Session.sessionId
      · have hforeign' : D.enforcesForeignKeys ∧
            id sid ∉ db.tables.sessions.map (Session.idWeight id) := hforeign
        simp only [if_pos hforeign, if_pos hforeign', Except.map]
      · have hforeign' : ¬ (D.enforcesForeignKeys ∧
            id sid ∉ db.tables.sessions.map (Session.idWeight id)) := hforeign
        simp only [if_neg hforeign, if_neg hforeign', Except.map]
        rfl
    · have h' : ¬ db.tables.Lacks sid mid := by
        rw [Tables.Lacks, hrows]
        exact h
      simp only [dif_neg h, dif_neg h', Except.map]

end Db

/-- A program over the transactions ends alike on a database and on its tables. -/
theorem Collated.run_tables {D : Dialect} (p : SqlAlchemyStore.TxProg) (db : Db) :
    p.run (Collated.txHandler id D) db.tables =
      ((p.run (SqlAlchemyStore.txHandler D) db).1,
        (p.run (SqlAlchemyStore.txHandler D) db).2.tables) := by
  induction p generalizing db with
  | ret a => rfl
  | vis op k ih =>
    have hop : Collated.txHandler id D op db.tables =
        ((SqlAlchemyStore.txHandler D op db).1, (SqlAlchemyStore.txHandler D op db).2.tables) := by
      cases op with
      | selectSession k => rfl
      | insertSession s =>
        simp only [Collated.txHandler, SqlAlchemyStore.txHandler, Db.insertSession_tables]
        cases db.insertSession D s <;> rfl
    rw [Prog.run_vis, Prog.run_vis, hop]
    exact ih _ _

/-- **Where a server compares texts themselves, the store on the tables is the store on the
database.** -/
theorem perform_tables (D : Dialect) (op : StoreOp String) (db : Db) :
    (collatedStore id D).perform op db.tables =
      (((sqlAlchemySessionStore D).perform op db).1,
        ((sqlAlchemySessionStore D).perform op db).2.tables) := by
  cases op with
  | getOrCreate uuid a => exact Collated.run_tables _ db
  | save s =>
    simp only [SessionStore.perform, collatedStore, sqlAlchemySessionStore, Collated.save,
      SqlAlchemyStore.save, Db.updateSession_tables]
    cases SqlAlchemyStore.validateSession s with
    | error e => rfl
    | ok u => cases db.updateSession D s <;> rfl
  | isProcessed sid mid =>
    simp only [SessionStore.perform, collatedStore, sqlAlchemySessionStore, Collated.isProcessed,
      SqlAlchemyStore.isProcessed, Db.selectProcessed_tables]
    cases SqlAlchemyStore.validateMessage sid mid <;> rfl
  | markProcessed sid mid =>
    simp only [SessionStore.perform, collatedStore, sqlAlchemySessionStore,
      Collated.markProcessed, SqlAlchemyStore.markProcessed, Db.insertProcessed_tables]
    cases SqlAlchemyStore.validateMessage sid mid with
    | error e => rfl
    | ok u =>
      cases db.insertProcessed D sid mid with
      | error e => cases e <;> rfl
      | ok db' => rfl

end ClawEngine.Persistence
