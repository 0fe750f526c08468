import ClawEngine.Persistence.Ledger
import Mathlib.Algebra.Ring.Int.Defs

/-!
# The database under the SQL stores

The two tables of `sqlite_store.py` and of `adapters/persistence/sqlalchemy/schema.py`, with their
`UNIQUE` and `PRIMARY KEY` constraints as fields: a database that violates one cannot be built. Each
statement of the stores is one function, performed as a transaction of its own.

What is the database's and its driver's own is a `Dialect`: which texts and integers it binds, what
its floating-point column keeps, and whether it enforces the foreign key of the processed messages.
Texts are compared exactly.
-/

set_option autoImplicit false

namespace ClawEngine.Persistence

open ClawEngine.Core ClawEngine.Orchestration

/-- A database with its driver. `text` and `integer` say why a value cannot be bound; `float` is
what the column keeps. The values of a new session are kept. -/
structure Dialect where
  text : String → Option String
  integer : Int → Option String
  float : PyFloat → Except StoreError PyFloat
  enforcesForeignKeys : Bool
  integer_zero : integer 0 = none
  float_zero : float (.finite 0) = .ok (.finite 0)

namespace Dialect

/-- Why a statement's parameters cannot be bound. -/
def refusal (D : Dialect) (texts : List String) (integers : List Int) : Option StoreError :=
  ((texts.findSome? D.text).or (integers.findSome? D.integer)).map .columnError

/-- The clock column: what it keeps of a value it takes. -/
def clock (D : Dialect) (x : PyFloat) : PyFloat :=
  match D.float x with
  | .ok y => y
  | .error _ => x

theorem clock_of_ok {D : Dialect} {x y : PyFloat} (h : D.float x = .ok y) : D.clock x = y := by
  simp only [clock, h]

theorem refusal_eq_none {D : Dialect} {texts : List String} {integers : List Int} :
    D.refusal texts integers = none ↔
      (∀ t ∈ texts, D.text t = none) ∧ ∀ i ∈ integers, D.integer i = none := by
  simp only [refusal, Option.map_eq_none_iff, Option.or_eq_none_iff, List.findSome?_eq_none_iff]

/-- SQLite through `sqlite3`: an `INTEGER` is a signed 64-bit word, a `REAL` drops the sign of a zero,
and a NaN is bound as `NULL`, which a `NOT NULL` column refuses. Foreign keys are off unless a pragma
sets them. A text is bound if it can be encoded: each can here, as a `String` holds no lone surrogate
(a `str` that does raises `UnicodeEncodeError` in whatever statement it is bound to). -/
def sqlite : Dialect where
  text _ := none
  integer i :=
    if -(2 ^ 63) ≤ i ∧ i < 2 ^ 63 then none
    else some "Python int too large to convert to SQLite INTEGER"
  float
    | .nan => .error .integrityError
    | .negZero => .ok (.finite 0)
    | x => .ok x
  enforcesForeignKeys := false
  integer_zero := by decide
  float_zero := rfl

end Dialect

/-- The two tables. -/
structure Db where
  sessions : List (Session String)
  processed : List (String × String)
  naturalKey : (sessions.map Session.key).Nodup
  primaryKey : (sessions.map Session.sessionId).Nodup
  processedKey : processed.Nodup

namespace Db

/-- After `CREATE TABLE`. -/
def empty : Db := ⟨[], [], List.nodup_nil, List.nodup_nil, List.nodup_nil⟩

/-- No row has the key or the id of `s`. -/
abbrev New (s : Session String) (db : Db) : Prop :=
  s.key ∉ db.sessions.map Session.key ∧ s.sessionId ∉ db.sessions.map Session.sessionId

/-- One more session row. -/
def addSession (s : Session String) (db : Db) (h : db.New s) : Db :=
  { db with
    sessions := db.sessions ++ [s]
    naturalKey := by
      rw [List.map_append, List.nodup_append]
      refine ⟨db.naturalKey, List.nodup_singleton _, ?_⟩
      rintro k hk k' hk' rfl
      exact h.1 (List.mem_singleton.mp hk' ▸ hk)
    primaryKey := by
      rw [List.map_append, List.nodup_append]
      refine ⟨db.primaryKey, List.nodup_singleton _, ?_⟩
      rintro k hk k' hk' rfl
      exact h.2 (List.mem_singleton.mp hk' ▸ hk) }

/-- The rows after an update of the session of one id. -/
def updatedRows (s : Session String) (rows : List (Session String)) : List (Session String) :=
  rows.map fun x => if x.sessionId = s.sessionId then x.overwrite s else x

@[simp] theorem map_key_updatedRows (s : Session String) (rows : List (Session String)) :
    (updatedRows s rows).map Session.key = rows.map Session.key := by
  rw [updatedRows, List.map_map]
  apply List.map_congr_left
  intro x _
  simp only [Function.comp_apply]
  split <;> rfl

@[simp] theorem map_sessionId_updatedRows (s : Session String) (rows : List (Session String)) :
    (updatedRows s rows).map Session.sessionId = rows.map Session.sessionId := by
  rw [updatedRows, List.map_map]
  apply List.map_congr_left
  intro x _
  simp only [Function.comp_apply]
  split <;> rfl

/-- The session row of one id overwritten. -/
def setSession (s : Session String) (db : Db) : Db :=
  { db with
    sessions := updatedRows s db.sessions
    naturalKey := by rw [map_key_updatedRows]; exact db.naturalKey
    primaryKey := by rw [map_sessionId_updatedRows]; exact db.primaryKey }

/-- One more processed row. -/
def addProcessed (sid mid : String) (db : Db) (h : (sid, mid) ∉ db.processed) : Db :=
  { db with
    processed := db.processed ++ [(sid, mid)]
    processedKey := by
      rw [List.nodup_append]
      refine ⟨db.processedKey, List.nodup_singleton _, ?_⟩
      rintro x hx y hy rfl
      exact h (List.mem_singleton.mp hy ▸ hx) }

/-! ## Statements -/

/-- `SELECT * FROM session WHERE workspace_id=? AND channel=? AND external_thread_key=?`. -/
def selectSession (D : Dialect) (k : Key) (db : Db) :
    Except StoreError (List (Session String)) :=
  match D.refusal [k.workspaceId, k.channel, k.externalThreadKey] [] with
  | some e => .error e
  | none => .ok (db.sessions.filter (·.key = k))

/-- Why the values of a row cannot be bound. -/
def rowRefusal (D : Dialect) (s : Session String) : Option StoreError :=
  D.refusal ([s.sessionId, s.workspaceId, s.channel, s.externalThreadKey, s.backendName] ++
    s.backendThreadId.toList) [s.roundCount, s.maxRounds]

/-- `INSERT INTO session`. -/
def insertSession (D : Dialect) (s : Session String) (db : Db) : Except StoreError Db :=
  match rowRefusal D s with
  | some e => .error e
  | none =>
    match D.float s.lastActive with
    | .error e => .error e
    | .ok lastActive =>
      if h : db.New s then .ok (db.addSession { s with lastActive } h) else .error .integrityError

/-- Why the values of an update cannot be bound. -/
def updateRefusal (D : Dialect) (s : Session String) : Option StoreError :=
  D.refusal (s.backendThreadId.toList ++ [s.sessionId]) [s.roundCount, s.maxRounds]

/-- `UPDATE session SET backend_thread_id=?, round_count=?, max_rounds=?, last_active=? WHERE
session_id=?`. Only a row that is updated can violate its column. -/
def updateSession (D : Dialect) (s : Session String) (db : Db) : Except StoreError Db :=
  match updateRefusal D s with
  | some e => .error e
  | none =>
    if s.sessionId ∈ db.sessions.map Session.sessionId then
      match D.float s.lastActive with
      | .error e => .error e
      | .ok lastActive => .ok (db.setSession { s with lastActive })
    else .ok db

/-- `SELECT .. FROM processed_message WHERE session_id=? AND message_id=?`. -/
def selectProcessed (D : Dialect) (sid mid : String) (db : Db) :
    Except StoreError (List (String × String)) :=
  match D.refusal [sid, mid] [] with
  | some e => .error e
  | none => .ok (db.processed.filter (· = (sid, mid)))

/-- `INSERT INTO processed_message`. -/
def insertProcessed (D : Dialect) (sid mid : String) (db : Db) : Except StoreError Db :=
  match D.refusal [sid, mid] [] with
  | some e => .error e
  | none =>
    if h : (sid, mid) ∉ db.processed then
      if D.enforcesForeignKeys ∧ sid ∉ db.sessions.map Session.sessionId then
        .error .integrityError
      else .ok (db.addProcessed sid mid h)
    else .error .integrityError

/-! ## The ledger a database is -/

/-- The ledger of the two tables. -/
def ledger (db : Db) : Ledger String where
  session k := db.sessions.find? (·.key = k)
  processed sid mid := decide ((sid, mid) ∈ db.processed)

theorem ledger_session {db : Db} {k : Key} {s : Session String} :
    db.ledger.session k = some s ↔ s ∈ db.sessions ∧ s.key = k := by
  constructor
  · intro h
    exact ⟨List.mem_of_find?_eq_some h, by simpa using List.find?_some h⟩
  · rintro ⟨hs, rfl⟩
    cases h : db.ledger.session s.key with
    | none => simpa using List.find?_eq_none.mp h s hs
    | some x =>
      have hk : x.key = s.key := by simpa using List.find?_some h
      rw [List.inj_on_of_nodup_map db.naturalKey (List.mem_of_find?_eq_some h) hs hk]

theorem ledger_session_eq_none {db : Db} {k : Key} :
    db.ledger.session k = none ↔ k ∉ db.sessions.map Session.key := by
  simp only [ledger, List.find?_eq_none, decide_eq_true_eq, List.mem_map, not_exists, not_and]

theorem ledger_knows {db : Db} {sid : String} :
    db.ledger.Knows sid ↔ sid ∈ db.sessions.map Session.sessionId := by
  simp only [Ledger.Knows, ledger_session, List.mem_map]
  constructor
  · rintro ⟨k, s, ⟨hs, -⟩, rfl⟩
    exact ⟨s, hs, rfl⟩
  · rintro ⟨s, hs, rfl⟩
    exact ⟨s.key, s, ⟨hs, rfl⟩, rfl⟩

theorem ledger_wf (db : Db) : db.ledger.WF where
  key_eq h := (ledger_session.mp h).2
  id_inj := by
    intro k k' s s' hs hs' heq
    obtain ⟨hmem, rfl⟩ := ledger_session.mp hs
    obtain ⟨hmem', rfl⟩ := ledger_session.mp hs'
    rw [List.inj_on_of_nodup_map db.primaryKey hmem hmem' heq]

/-- At most one row has a natural key. -/
theorem filter_key (db : Db) (k : Key) :
    db.sessions.filter (·.key = k) = (db.ledger.session k).toList := by
  have hnodup : (db.sessions.filter (·.key = k)).Nodup :=
    (List.Nodup.of_map _ db.naturalKey).filter _
  cases hk : db.ledger.session k with
  | none =>
    rw [Option.toList_none, List.filter_eq_nil_iff]
    intro x hx
    simpa using List.find?_eq_none.mp hk x hx
  | some s =>
    rw [Option.toList_some]
    refine List.Perm.eq_singleton ((List.perm_ext_iff_of_nodup hnodup (List.nodup_singleton s)).mpr
      fun x => ?_)
    rw [List.mem_filter, decide_eq_true_eq, List.mem_singleton, ← ledger_session, hk,
      Option.some.injEq, eq_comm]

theorem filter_processed (db : Db) (sid mid : String) :
    db.processed.filter (· = (sid, mid)) =
      if db.ledger.processed sid mid then [(sid, mid)] else [] := by
  rw [List.filter_eq, db.processedKey.count]
  simp only [ledger, decide_eq_true_eq]
  split <;> rfl

theorem new_iff {db : Db} {s : Session String} :
    db.New s ↔ db.ledger.session s.key = none ∧ ¬ db.ledger.Knows s.sessionId := by
  rw [ledger_session_eq_none, ledger_knows]

theorem ledger_addSession {db : Db} {uuid : String} {a : CreateArgs}
    (h : db.New (Session.create uuid a)) :
    (db.addSession (Session.create uuid a) h).ledger = db.ledger.create uuid a := by
  apply Ledger.ext
  · funext k
    rw [Ledger.create_session]
    simp only [ledger, addSession, List.find?_append, List.find?_singleton, Session.create_key]
    by_cases hk : k = a.key
    · subst hk
      have hrow : db.sessions.find? (·.key = a.key) = none := (new_iff.mp h).1
      simp only [hrow, decide_true, if_true, Option.none_or]
    · simp only [Ne.symm hk, decide_false, Bool.false_eq_true, if_false, Option.or_none, hk]
  · rfl

theorem ledger_setSession (s : Session String) (db : Db) :
    (db.setSession s).ledger = db.ledger.save s := by
  apply Ledger.ext
  · funext k
    simp only [ledger, Ledger.save, setSession, updatedRows, List.find?_map]
    congr 2
    funext x
    simp only [Function.comp_apply]
    split <;> rfl
  · rfl

theorem ledger_addProcessed {db : Db} {sid mid : String} (h : (sid, mid) ∉ db.processed) :
    (db.addProcessed sid mid h).ledger = db.ledger.mark sid mid := by
  apply Ledger.ext
  · rfl
  · funext x y
    simp only [ledger, addProcessed, Ledger.mark, List.mem_append, List.mem_singleton,
      Prod.mk.injEq, Bool.decide_or, Bool.decide_and]

end Db

/-! ## Statements within the contract -/

/-- The parameters of an operation bind, and the columns take its values. -/
def Dialect.Takes (D : Dialect) (L : Ledger String) : StoreOp String → Prop
  | .getOrCreate uuid a =>
    D.refusal [a.key.workspaceId, a.key.channel, a.key.externalThreadKey] [] = none ∧
      (L.session a.key = none → Db.rowRefusal D (Session.create uuid a) = none)
  | .save s => Db.updateRefusal D s = none ∧ ∃ t, D.float s.lastActive = .ok t
  | .isProcessed sid mid => D.refusal [sid, mid] [] = none
  | .markProcessed sid mid => D.refusal [sid, mid] [] = none

/-- The parameters of an operation bind, and the columns hold its values exactly. -/
def Dialect.Holds (D : Dialect) : StoreOp String → Prop
  | .getOrCreate uuid a =>
    D.refusal [a.key.workspaceId, a.key.channel, a.key.externalThreadKey] [] = none ∧
      Db.rowRefusal D (Session.create uuid a) = none
  | .save s => Db.updateRefusal D s = none ∧ D.float s.lastActive = .ok s.lastActive
  | .isProcessed sid mid => D.refusal [sid, mid] [] = none
  | .markProcessed sid mid => D.refusal [sid, mid] [] = none

theorem Dialect.Holds.takes {D : Dialect} {op : StoreOp String} (h : D.Holds op)
    (L : Ledger String) : D.Takes L op := by
  cases op with
  | getOrCreate uuid a => exact ⟨h.1, fun _ => h.2⟩
  | save s => exact ⟨h.1, _, h.2⟩
  | isProcessed sid mid => exact h
  | markProcessed sid mid => exact h

theorem Dialect.Holds.clock {D : Dialect} {s : Session String} (h : D.Holds (.save s)) :
    D.clock s.lastActive = s.lastActive := Dialect.clock_of_ok h.2

namespace Db

variable {D : Dialect} {db : Db}

theorem refusal_isColumn {texts : List String} {integers : List Int} {e : StoreError}
    (h : D.refusal texts integers = some e) : ∃ message, e = .columnError message := by
  obtain ⟨message, -, rfl⟩ := Option.map_eq_some_iff.mp h
  exact ⟨message, rfl⟩

theorem selectSession_of_binds {k : Key}
    (h : D.refusal [k.workspaceId, k.channel, k.externalThreadKey] [] = none) :
    db.selectSession D k = .ok (db.ledger.session k).toList := by
  simp only [selectSession, h, filter_key]

theorem insertSession_create {uuid : String} {a : CreateArgs}
    (hrow : rowRefusal D (Session.create uuid a) = none)
    (hnew : db.New (Session.create uuid a)) :
    db.insertSession D (Session.create uuid a) = .ok (db.addSession (Session.create uuid a) hnew) := by
  have hfloat : D.float (Session.create uuid a : Session String).lastActive = .ok (.finite 0) :=
    D.float_zero
  simp only [insertSession, hrow, hfloat]
  exact dif_pos hnew

/-- What an insertion with an id that no row has comes to: the row is there, its key was there, or
its values are refused. -/
theorem insertSession_cases {uuid : String} {a : CreateArgs}
    (hfresh : uuid ∉ db.sessions.map Session.sessionId) :
    (∃ hnew : db.New (Session.create uuid a),
      db.insertSession D (Session.create uuid a) = .ok (db.addSession (Session.create uuid a) hnew) ∧
        rowRefusal D (Session.create uuid a) = none) ∨
    (db.insertSession D (Session.create uuid a) = .error .integrityError ∧
      a.key ∈ db.sessions.map Session.key) ∨
    ∃ message, db.insertSession D (Session.create uuid a) = .error (.columnError message) ∧
      rowRefusal D (Session.create uuid a) ≠ none := by
  cases hrow : rowRefusal D (Session.create uuid a) with
  | some e =>
    obtain ⟨message, rfl⟩ := refusal_isColumn hrow
    refine .inr (.inr ⟨message, ?_, Option.some_ne_none _⟩)
    simp only [insertSession, hrow]
  | none =>
    by_cases hnew : db.New (Session.create uuid a)
    · exact .inl ⟨hnew, insertSession_create hrow hnew, rfl⟩
    · have hkey : a.key ∈ db.sessions.map Session.key := by
        by_contra hkey
        exact hnew ⟨hkey, hfresh⟩
      have hfloat : D.float (Session.create uuid a : Session String).lastActive =
          .ok (.finite 0) := D.float_zero
      refine .inr (.inl ⟨?_, hkey⟩)
      simp only [insertSession, hrow, hfloat]
      exact dif_neg hnew

theorem updateSession_of_takes {s : Session String}
    (hknown : db.ledger.Knows s.sessionId) (h : D.Takes db.ledger (.save s)) :
    db.updateSession D s = .ok (db.setSession (s.kept D.clock)) := by
  obtain ⟨hbind, t, ht⟩ := h
  simp only [updateSession, hbind, ht, if_pos (ledger_knows.mp hknown), Session.kept,
    Dialect.clock_of_ok ht]

theorem updateSession_of_not_takes {s : Session String}
    (hknown : db.ledger.Knows s.sessionId) (h : ¬ D.Takes db.ledger (.save s)) :
    ∃ e, db.updateSession D s = .error e := by
  simp only [updateSession]
  split
  · exact ⟨_, rfl⟩
  · next hbind =>
    rw [if_pos (ledger_knows.mp hknown)]
    split
    · exact ⟨_, rfl⟩
    · next t ht => exact absurd ⟨hbind, t, ht⟩ h

theorem selectProcessed_of_binds {sid mid : String} (h : D.refusal [sid, mid] [] = none) :
    db.selectProcessed D sid mid =
      .ok (if db.ledger.processed sid mid then [(sid, mid)] else []) := by
  simp only [selectProcessed, h, filter_processed]

/-- A processed message of a session that exists is inserted, unless it is there already. -/
theorem insertProcessed_of_binds {sid mid : String} (h : D.refusal [sid, mid] [] = none)
    (hknown : db.ledger.Knows sid) :
    db.insertProcessed D sid mid =
      if h : (sid, mid) ∉ db.processed then .ok (db.addProcessed sid mid h)
      else .error .integrityError := by
  simp only [insertProcessed, h]
  split
  · rw [if_neg fun h' => h'.2 (ledger_knows.mp hknown)]
  · rfl

theorem mark_of_processed {sid mid : String} (h : (sid, mid) ∈ db.processed) :
    db.ledger.mark sid mid = db.ledger := by
  apply Ledger.ext
  · rfl
  · funext x y
    simp only [ledger, Ledger.mark]
    by_cases hxy : x = sid ∧ y = mid
    · obtain ⟨rfl, rfl⟩ := hxy
      simp only [h, decide_true, Bool.and_self, Bool.or_self]
    · rw [← Bool.decide_and, decide_eq_false hxy, Bool.or_false]

end Db

end ClawEngine.Persistence
