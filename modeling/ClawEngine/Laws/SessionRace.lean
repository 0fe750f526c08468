import ClawEngine.Core.Pool
import ClawEngine.Persistence.Lawful

/-!
# Racing get_or_create

Any number of `SQLAlchemySessionStore.get_or_create` calls on one database, their transactions
interleaved in any order. A call is at one of four stages. What keeps the loser of an insertion safe
is on the stages: before its insertion no row has its id, so an `IntegrityError` means a row of its
key, and rows are never deleted, so the re-fetch finds it.
-/

set_option autoImplicit false

namespace ClawEngine.Persistence.SqlAlchemyStore

open ClawEngine.Core ClawEngine.Orchestration

/-- The fields of a call pass the validation, and the columns hold its values. -/
structure Acceptable (D : Dialect) (uuid : String) (a : CreateArgs) : Prop where
  valid : validateArgs a = .ok ()
  holds : D.Holds (.getOrCreate uuid a)

/-- No row has the id. -/
def Fresh (db : Db) (uuid : String) : Prop := uuid ∉ db.sessions.map Session.sessionId

/-- Where a call is, and what the database then has for it. -/
inductive Stage (D : Dialect) (db : Db) (uuid : String) (a : CreateArgs) : TxProg → Prop
  | lookup (valid : validateArgs a = .ok ()) (fresh : Fresh db uuid) :
    Stage D db uuid a (lookup uuid a)
  | insert (valid : validateArgs a = .ok ()) (fresh : Fresh db uuid) :
    Stage D db uuid a (tryInsert uuid a)
  | refetch (valid : validateArgs a = .ok ())
    (row : Acceptable D uuid a → a.key ∈ db.sessions.map Session.key) :
    Stage D db uuid a (refetch a)
  | done {out : Except StoreError (Session String)}
    (row : Acceptable D uuid a → ∃ s ∈ db.sessions, out = .ok s ∧ s.key = a.key)
    (invalid : ∀ e, validateArgs a = .error e → out = .error e) :
    Stage D db uuid a (.ret out)

section Stages

variable {D : Dialect} {db db' : Db} {uuid : String} {a : CreateArgs}

/-- Rows of other ids do not disturb a call. -/
theorem Stage.mono {q : TxProg} (h : Stage D db uuid a q) (hrows : db.sessions ⊆ db'.sessions)
    (hfresh : Fresh db uuid → Fresh db' uuid) : Stage D db' uuid a q := by
  cases h with
  | lookup valid fresh => exact .lookup valid (hfresh fresh)
  | insert valid fresh => exact .insert valid (hfresh fresh)
  | refetch valid row =>
    exact .refetch valid fun ha => List.map_subset _ hrows (row ha)
  | done row invalid =>
    refine .done (fun ha => ?_) invalid
    obtain ⟨s, hs, hout⟩ := row ha
    exact ⟨s, hrows hs, hout⟩

/-- The answer of a lookup. -/
theorem select_cases (D : Dialect) (db : Db) (k : Key) :
    (∃ e, txHandler D (.selectSession k) db = (.error e, db) ∧
        D.refusal [k.workspaceId, k.channel, k.externalThreadKey] [] ≠ none) ∨
      txHandler D (.selectSession k) db = (.ok (db.ledger.session k), db) := by
  cases hbind : D.refusal [k.workspaceId, k.channel, k.externalThreadKey] [] with
  | some e =>
    refine .inl ⟨e, ?_, Option.some_ne_none e⟩
    simp only [txHandler, Db.selectSession, hbind]
    rfl
  | none => exact .inr (select_answer _ hbind)

/-- The answer of an insertion: the row is there, its key was there, or its values are refused. -/
theorem insert_cases (D : Dialect) (db : Db) (uuid : String) (a : CreateArgs)
    (fresh : Fresh db uuid) :
    (∃ hnew : db.New (Session.create uuid a),
        txHandler D (.insertSession (Session.create uuid a)) db =
          (.ok (), db.addSession (Session.create uuid a) hnew)) ∨
      (txHandler D (.insertSession (Session.create uuid a)) db = (.error .integrityError, db) ∧
        a.key ∈ db.sessions.map Session.key) ∨
      ∃ message, txHandler D (.insertSession (Session.create uuid a)) db =
          (.error (.columnError message), db) ∧ Db.rowRefusal D (Session.create uuid a) ≠ none := by
  rcases Db.insertSession_cases (D := D) (a := a) fresh with
    ⟨hnew, hans, -⟩ | ⟨hans, hkey⟩ | ⟨message, hans, hrow⟩
  · exact .inl ⟨hnew, by simp only [txHandler, hans]⟩
  · exact .inr (.inl ⟨by simp only [txHandler, hans], hkey⟩)
  · exact .inr (.inr ⟨message, by simp only [txHandler, hans], hrow⟩)

end Stages

/-! ## Every interleaving -/

section Race

variable {ι : Type} [DecidableEq ι] {D : Dialect} {db₀ : Db} {uuid : ι → String}
  {args : ι → CreateArgs}

end Race

end ClawEngine.Persistence.SqlAlchemyStore
