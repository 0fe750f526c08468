import ClawEngine.Persistence.MemoryStore
import ClawEngine.Persistence.SqlAlchemyStore
import ClawEngine.Persistence.SqliteStore

/-!
# The three stores are lawful

Each store keeps a ledger. The memory store accepts every operation; the SQL stores accept those
whose values their columns take, and the SQLAlchemy store asks that the fields pass its validation
as well. For the SQL stores the ledger's invariant is the constraints of the database; for the
memory store it ties its two dictionaries together.
-/

set_option autoImplicit false

namespace ClawEngine.Persistence

open ClawEngine.Core ClawEngine.Orchestration

/-! ## MemorySessionStore -/

namespace MemoryStore

variable {V : Type} {m : MemoryStore V}

/-- The two dictionaries name each other's entries. -/
structure Inv (m : MemoryStore V) : Prop where
  found : ∀ {k id}, m.keyToId k = some id → ∃ s, m.byId id = some s ∧ s.sessionId = id ∧ s.key = k
  owned : ∀ {id s}, m.byId id = some s → m.keyToId s.key = some id

/-- The ledger of the dictionaries. -/
def ledger (m : MemoryStore V) : Ledger V where
  session k := (m.keyToId k).bind m.byId
  processed sid mid := m.processed (sid, mid)

theorem Inv.empty : (MemoryStore.empty : MemoryStore V).Inv where
  found h := by cases h
  owned h := by cases h

theorem Inv.session_iff (h : m.Inv) {k : Key} {s : Session V} :
    m.ledger.session k = some s ↔ m.byId s.sessionId = some s ∧ s.key = k := by
  simp only [ledger, Option.bind_eq_some_iff]
  constructor
  · rintro ⟨id, hk, hs⟩
    obtain ⟨s', hs', rfl, rfl⟩ := h.found hk
    rw [hs'] at hs
    cases hs
    exact ⟨hs', rfl⟩
  · rintro ⟨hs, rfl⟩
    exact ⟨s.sessionId, h.owned hs, hs⟩

theorem Inv.byId_sessionId (h : m.Inv) {id : String} {s : Session V} (hs : m.byId id = some s) :
    s.sessionId = id := by
  obtain ⟨s', hs', hid, -⟩ := h.found (h.owned hs)
  rw [hs] at hs'
  cases hs'
  exact hid

theorem Inv.wf (h : m.Inv) : m.ledger.WF where
  key_eq hs := (h.session_iff.mp hs).2
  id_inj := by
    intro k k' s s' hs hs' heq
    obtain ⟨hid, rfl⟩ := h.session_iff.mp hs
    obtain ⟨hid', rfl⟩ := h.session_iff.mp hs'
    rw [← heq, hid] at hid'
    cases hid'
    rfl

theorem Inv.keyToId_eq_none (h : m.Inv) {k : Key} :
    m.ledger.session k = none ↔ m.keyToId k = none := by
  constructor
  · intro hnone
    cases hk : m.keyToId k with
    | none => rfl
    | some id =>
      obtain ⟨s, hs, -⟩ := h.found hk
      simp only [ledger, hk, Option.bind_some, hs, reduceCtorEq] at hnone
  · intro hk
    simp only [ledger, hk, Option.bind_none]

theorem Inv.byId_eq_none (h : m.Inv) {id : String} (hid : ¬ m.ledger.Knows id) :
    m.byId id = none := by
  cases hs : m.byId id with
  | none => rfl
  | some s =>
    obtain rfl := h.byId_sessionId hs
    exact absurd ⟨s.key, s, h.session_iff.mpr ⟨hs, rfl⟩, rfl⟩ hid

/-- What `get_or_create` leaves for a new key. -/
theorem Inv.create (h : m.Inv) {uuid : String} {a : CreateArgs}
    (hnone : m.ledger.session a.key = none) (hfresh : ¬ m.ledger.Knows uuid) :
    (getOrCreate uuid a m).1 = .ok (Session.create uuid a) ∧ (getOrCreate uuid a m).2.Inv ∧
      (getOrCreate uuid a m).2.ledger = m.ledger.create uuid a := by
  have hkey := h.keyToId_eq_none.mp hnone
  have hid := h.byId_eq_none hfresh
  have hne : ∀ {k id}, m.keyToId k = some id → id ≠ uuid := by
    rintro k id hk rfl
    obtain ⟨s, hs, -⟩ := h.found hk
    rw [hid] at hs
    cases hs
  simp only [getOrCreate, hkey, true_and]
  constructor
  · constructor
    · intro k id hk
      simp only [Function.update_apply] at hk ⊢
      split at hk
      · next hka =>
        cases hk
        exact ⟨_, if_pos rfl, rfl, hka.symm⟩
      · rw [if_neg (hne hk)]
        exact h.found hk
    · intro id s hs
      simp only [Function.update_apply] at hs ⊢
      split at hs
      · next hu =>
        cases hs
        rw [Session.create_key, if_pos rfl, hu]
      · have hk := h.owned hs
        have hka : s.key ≠ a.key := by
          intro heq
          rw [heq, hkey] at hk
          cases hk
        rw [if_neg hka]
        exact hk
  · apply Ledger.ext
    · funext k
      rw [Ledger.create_session]
      simp only [ledger]
      by_cases hka : k = a.key
      · rw [if_pos hka, hka, Function.update_self, Option.bind_some, Function.update_self]
      · rw [if_neg hka, Function.update_of_ne hka]
        cases hk : m.keyToId k with
        | none => rfl
        | some id => rw [Option.bind_some, Function.update_of_ne (hne hk), Option.bind_some]
    · rfl

/-- What a save leaves. -/
theorem Inv.save (h : m.Inv) {s : Session V} (hs : m.ledger.Allows (.save s)) :
    (MemoryStore.save s m).2.Inv ∧ (MemoryStore.save s m).2.ledger = m.ledger.save s := by
  obtain ⟨x, hx, hid, hname⟩ := id hs
  obtain ⟨hbyId, hkey⟩ := h.session_iff.mp hx
  rw [hid] at hbyId
  have hkeyToId : m.keyToId s.key = some s.sessionId := hkey ▸ h.owned hbyId
  have hsame : Function.update m.keyToId s.key (some s.sessionId) = m.keyToId := by
    rw [← hkeyToId, Function.update_eq_self]
  have hne : ∀ {k id}, m.keyToId k = some id → k ≠ s.key → id ≠ s.sessionId := by
    rintro k id hk hk' rfl
    obtain ⟨y, hy, -, hyk⟩ := h.found hk
    rw [hbyId] at hy
    cases hy
    exact hk' (hyk.symm.trans hkey)
  simp only [MemoryStore.save, hsame]
  constructor
  · constructor
    · intro k id hk
      by_cases hks : k = s.key
      · subst hks
        rw [hkeyToId] at hk
        cases hk
        exact ⟨s, Function.update_self .., rfl, rfl⟩
      · simp only [Function.update_of_ne (hne hk hks)]
        exact h.found hk
    · intro id y hy
      simp only [Function.update_apply] at hy
      split at hy
      · next hids =>
        cases hy
        rw [hids]
        exact hkeyToId
      · exact h.owned hy
  · apply Ledger.ext
    · funext k
      rw [Ledger.save_session h.wf hs]
      simp only [ledger]
      split
      · next hks => rw [hks, hkeyToId, Option.bind_some, Function.update_self]
      · next hks =>
        cases hk : m.keyToId k with
        | none => rfl
        | some id => rw [Option.bind_some, Function.update_of_ne (hne hk hks), Option.bind_some]
    · rfl

/-- What a mark leaves. -/
theorem Inv.mark (h : m.Inv) (sid mid : String) : (markProcessed sid mid m).2.Inv ∧
    (markProcessed sid mid m).2.ledger = m.ledger.mark sid mid := by
  refine ⟨⟨h.found, h.owned⟩, ?_⟩
  apply Ledger.ext
  · rfl
  · funext x y
    simp only [ledger, markProcessed, Ledger.mark, Function.update_apply, Prod.mk.injEq]
    by_cases hxy : x = sid ∧ y = mid
    · rw [if_pos hxy, ← Bool.decide_and, decide_eq_true hxy, Bool.or_true]
    · rw [if_neg hxy, ← Bool.decide_and, decide_eq_false hxy, Bool.or_false]

end MemoryStore

/-- **The memory store is lawful and accepts every operation.** -/
def memoryLawful (V : Type) : LawfulStore V (MemoryStore V) where
  ops := memorySessionStore
  Inv := MemoryStore.Inv
  view := MemoryStore.ledger
  clock := id
  Accepts _ _ := True
  wf := MemoryStore.Inv.wf
  accepted := by
    intro m op h hop _
    cases op with
    | getOrCreate uuid a =>
      cases hs : m.ledger.session a.key with
      | none =>
        obtain ⟨h₁, h₂, h₃⟩ := h.create hs hop
        simp only [Ledger.perform, hs]
        exact ⟨h₁, h₂, h₃⟩
      | some s =>
        obtain ⟨hbyId, hk⟩ := h.session_iff.mp hs
        have hkey : m.keyToId a.key = some s.sessionId := hk ▸ h.owned hbyId
        simp only [SessionStore.perform, memorySessionStore, MemoryStore.getOrCreate, hkey, hbyId,
          Ledger.perform, hs]
        exact ⟨trivial, h, trivial⟩
    | save s => exact ⟨rfl, h.save hop⟩
    | isProcessed sid mid => exact ⟨rfl, h, rfl⟩
    | markProcessed sid mid => exact ⟨rfl, h.mark sid mid⟩
  refused _ _ h := absurd trivial h
  accepts_message _ := ⟨trivial, trivial⟩

/-! ## SqliteSessionStore -/

/-- **The SQLite store is lawful and accepts what its columns take.** -/
def sqliteLawful : LawfulStore String Db where
  ops := sqliteSessionStore
  Inv _ := True
  view := Db.ledger
  clock := Dialect.sqlite.clock
  Accepts := Dialect.sqlite.Takes
  wf _ := Db.ledger_wf _
  accepted := by
    intro db op _ hop ha
    cases op with
    | getOrCreate uuid a =>
      simp only [SessionStore.perform, sqliteSessionStore, SqliteStore.getOrCreate, Ledger.perform,
        Db.selectSession_of_binds ha.1]
      cases hs : db.ledger.session a.key with
      | some s => exact ⟨rfl, trivial, rfl⟩
      | none =>
        have hnew : db.New (Session.create uuid a) := Db.new_iff.mpr ⟨hs, hop⟩
        simp only [Option.toList_none, Db.insertSession_create (ha.2 hs) hnew]
        exact ⟨trivial, trivial, Db.ledger_addSession hnew⟩
    | save s =>
      obtain ⟨x, hx, hid, -⟩ := hop
      have hknown : db.ledger.Knows s.sessionId := ⟨s.key, x, hx, hid⟩
      simp only [SessionStore.perform, sqliteSessionStore, SqliteStore.save, Ledger.perform,
        Db.updateSession_of_takes hknown ha]
      exact ⟨trivial, trivial, Db.ledger_setSession _ db⟩
    | isProcessed sid mid =>
      simp only [SessionStore.perform, sqliteSessionStore, SqliteStore.isProcessed, Ledger.perform,
        Db.selectProcessed_of_binds ha]
      refine ⟨?_, trivial, trivial⟩
      cases db.ledger.processed sid mid <;> rfl
    | markProcessed sid mid =>
      simp only [SessionStore.perform, sqliteSessionStore, SqliteStore.markProcessed,
        Ledger.perform, Db.insertProcessed_of_binds ha hop]
      by_cases hmem : (sid, mid) ∈ db.processed
      · rw [dif_neg (not_not_intro hmem)]
        exact ⟨rfl, trivial, (Db.mark_of_processed hmem).symm⟩
      · rw [dif_pos hmem]
        exact ⟨rfl, trivial, Db.ledger_addProcessed hmem⟩
  refused := by
    intro db op _ hop ha
    cases op with
    | getOrCreate uuid a =>
      have hbind : Dialect.sqlite.refusal
          [a.key.workspaceId, a.key.channel, a.key.externalThreadKey] [] = none := rfl
      have hrow : db.ledger.session a.key = none ∧
          ∃ e, Db.rowRefusal .sqlite (Session.create uuid a) = some e := by
        simpa only [Dialect.Takes, hbind, true_and, Classical.not_imp,
          Option.ne_none_iff_exists', ne_eq] using ha
      obtain ⟨hs, e, he⟩ := hrow
      simp only [SessionStore.perform, sqliteSessionStore, SqliteStore.getOrCreate,
        Db.selectSession_of_binds hbind, hs, Option.toList_none, Db.insertSession, he]
      exact ⟨⟨e, rfl⟩, trivial⟩
    | save s =>
      obtain ⟨x, hx, hid, -⟩ := hop
      obtain ⟨e, he⟩ := Db.updateSession_of_not_takes ⟨s.key, x, hx, hid⟩ ha
      simp only [SessionStore.perform, sqliteSessionStore, SqliteStore.save, he]
      exact ⟨⟨e, rfl⟩, trivial⟩
    | isProcessed sid mid => exact absurd rfl ha
    | markProcessed sid mid => exact absurd rfl ha
  accepts_message h := ⟨h, h⟩

/-! ## SQLAlchemySessionStore -/

namespace SqlAlchemyStore

/-- The fields of an operation pass the validation. -/
def Valid : StoreOp String → Prop
  | .getOrCreate _ a => validateArgs a = .ok ()
  | .save s => validateSession s = .ok ()
  | .isProcessed sid mid => validateMessage sid mid = .ok ()
  | .markProcessed sid mid => validateMessage sid mid = .ok ()

variable {D : Dialect} {db : Db} {uuid : String} {a : CreateArgs}

/-- An operation whose fields do not pass raises before the database is asked. -/
theorem perform_not_valid {op : StoreOp String} (h : ¬ Valid op) :
    (∃ e, ((sqlAlchemySessionStore D).perform op db).1 = .error e) ∧
      ((sqlAlchemySessionStore D).perform op db).2 = db := by
  cases op with
  | getOrCreate uuid a =>
    cases hv : validateArgs a with
    | ok u => exact absurd hv h
    | error e =>
      simp only [SessionStore.perform, sqlAlchemySessionStore, getOrCreate, getOrCreateProg, hv,
        Prog.raise, Prog.run_ret]
      exact ⟨⟨e, rfl⟩, trivial⟩
  | save s =>
    cases hv : validateSession s with
    | ok u => exact absurd hv h
    | error e =>
      simp only [SessionStore.perform, sqlAlchemySessionStore, save, hv]
      exact ⟨⟨e, rfl⟩, trivial⟩
  | isProcessed sid mid =>
    cases hv : validateMessage sid mid with
    | ok u => exact absurd hv h
    | error e =>
      simp only [SessionStore.perform, sqlAlchemySessionStore, isProcessed, hv]
      exact ⟨⟨e, rfl⟩, trivial⟩
  | markProcessed sid mid =>
    cases hv : validateMessage sid mid with
    | ok u => exact absurd hv h
    | error e =>
      simp only [SessionStore.perform, sqlAlchemySessionStore, markProcessed, hv]
      exact ⟨⟨e, rfl⟩, trivial⟩

/-- The lookup of a natural key never finds two rows. -/
theorem select_answer (db : Db) {k : Key}
    (h : D.refusal [k.workspaceId, k.channel, k.externalThreadKey] [] = none) :
    txHandler D (.selectSession k) db = (.ok (db.ledger.session k), db) := by
  simp only [txHandler, Db.selectSession_of_binds h]
  cases db.ledger.session k <;> rfl

theorem getOrCreate_found (hv : validateArgs a = .ok ())
    (hbind : D.refusal [a.key.workspaceId, a.key.channel, a.key.externalThreadKey] [] = none)
    {s : Session String} (hs : db.ledger.session a.key = some s) :
    getOrCreate D uuid a db = (.ok s, db) := by
  have hselect := select_answer db hbind
  rw [hs] at hselect
  simp only [getOrCreate, getOrCreateProg, hv, lookup]
  rw [Prog.run_call_ok hselect, Prog.run_ret]

theorem getOrCreate_new (hv : validateArgs a = .ok ())
    (hbind : D.refusal [a.key.workspaceId, a.key.channel, a.key.externalThreadKey] [] = none)
    (hs : db.ledger.session a.key = none) :
    getOrCreate D uuid a db = (tryInsert uuid a).run (txHandler D) db := by
  have hselect := select_answer db hbind
  rw [hs] at hselect
  simp only [getOrCreate, getOrCreateProg, hv, lookup]
  rw [Prog.run_call_ok hselect]

theorem getOrCreate_created (hv : validateArgs a = .ok ())
    (hbind : D.refusal [a.key.workspaceId, a.key.channel, a.key.externalThreadKey] [] = none)
    (hrow : Db.rowRefusal D (Session.create uuid a) = none) (hs : db.ledger.session a.key = none)
    (hnew : db.New (Session.create uuid a)) :
    getOrCreate D uuid a db = (.ok (Session.create uuid a), db.addSession _ hnew) := by
  rw [getOrCreate_new hv hbind hs]
  simp only [tryInsert, Prog.run_vis, txHandler, Db.insertSession_create hrow hnew, Prog.run_ret]

theorem getOrCreate_refused (hv : validateArgs a = .ok ())
    (hbind : D.refusal [a.key.workspaceId, a.key.channel, a.key.externalThreadKey] [] = none)
    {e : StoreError} (hrow : Db.rowRefusal D (Session.create uuid a) = some e)
    (hs : db.ledger.session a.key = none) :
    getOrCreate D uuid a db = (.error e, db) := by
  obtain ⟨message, rfl⟩ := Db.refusal_isColumn hrow
  rw [getOrCreate_new hv hbind hs]
  simp only [tryInsert, Prog.run_vis, txHandler, Db.insertSession, hrow, Prog.raise, Prog.run_ret]

theorem getOrCreate_unbound (hv : validateArgs a = .ok ()) {e : StoreError}
    (hbind : D.refusal [a.key.workspaceId, a.key.channel, a.key.externalThreadKey] [] = some e) :
    getOrCreate D uuid a db = (.error e, db) := by
  have hselect : txHandler D (.selectSession a.key) db = (.error e, db) := by
    simp only [txHandler, Db.selectSession, hbind]
    rfl
  simp only [getOrCreate, getOrCreateProg, hv, lookup]
  rw [Prog.run_call_error hselect]

end SqlAlchemyStore

/-- **The SQLAlchemy store is lawful on every dialect**, and accepts the valid operations its
columns take. -/
def sqlAlchemyLawful (D : Dialect) : LawfulStore String Db where
  ops := sqlAlchemySessionStore D
  Inv _ := True
  view := Db.ledger
  clock := D.clock
  Accepts L op := SqlAlchemyStore.Valid op ∧ D.Takes L op
  wf _ := Db.ledger_wf _
  accepted := by
    rintro db op - hop ⟨hv, ha⟩
    cases op with
    | getOrCreate uuid a =>
      simp only [SessionStore.perform, sqlAlchemySessionStore, Ledger.perform]
      cases hs : db.ledger.session a.key with
      | some s =>
        rw [SqlAlchemyStore.getOrCreate_found hv ha.1 hs]
        exact ⟨rfl, trivial, rfl⟩
      | none =>
        have hnew : db.New (Session.create uuid a) := Db.new_iff.mpr ⟨hs, hop⟩
        rw [SqlAlchemyStore.getOrCreate_created hv ha.1 (ha.2 hs) hs hnew]
        exact ⟨rfl, trivial, Db.ledger_addSession hnew⟩
    | save s =>
      obtain ⟨x, hx, hid, -⟩ := hop
      have hsession : SqlAlchemyStore.validateSession s = .ok () := hv
      simp only [SessionStore.perform, sqlAlchemySessionStore, SqlAlchemyStore.save, hsession,
        Ledger.perform, Db.updateSession_of_takes ⟨s.key, x, hx, hid⟩ ha]
      exact ⟨trivial, trivial, Db.ledger_setSession _ db⟩
    | isProcessed sid mid =>
      have hmessage : SqlAlchemyStore.validateMessage sid mid = .ok () := hv
      simp only [SessionStore.perform, sqlAlchemySessionStore, SqlAlchemyStore.isProcessed,
        hmessage, Ledger.perform, Db.selectProcessed_of_binds ha]
      refine ⟨?_, trivial, trivial⟩
      cases db.ledger.processed sid mid <;> rfl
    | markProcessed sid mid =>
      have hmessage : SqlAlchemyStore.validateMessage sid mid = .ok () := hv
      simp only [SessionStore.perform, sqlAlchemySessionStore, SqlAlchemyStore.markProcessed,
        hmessage, Ledger.perform, Db.insertProcessed_of_binds ha hop]
      by_cases hmem : (sid, mid) ∈ db.processed
      · rw [dif_neg (not_not_intro hmem)]
        exact ⟨rfl, trivial, (Db.mark_of_processed hmem).symm⟩
      · rw [dif_pos hmem]
        exact ⟨rfl, trivial, Db.ledger_addProcessed hmem⟩
  refused := by
    intro db op _ hop ha
    by_cases hv : SqlAlchemyStore.Valid op
    swap
    · exact SqlAlchemyStore.perform_not_valid hv
    have hnot : ¬ D.Takes db.ledger op := fun h => ha ⟨hv, h⟩
    cases op with
    | getOrCreate uuid a =>
      simp only [SessionStore.perform, sqlAlchemySessionStore]
      cases hbind : D.refusal [a.key.workspaceId, a.key.channel, a.key.externalThreadKey] [] with
      | some e =>
        rw [SqlAlchemyStore.getOrCreate_unbound hv hbind]
        exact ⟨⟨e, rfl⟩, rfl⟩
      | none =>
        have hrow : db.ledger.session a.key = none ∧
            ∃ e, Db.rowRefusal D (Session.create uuid a) = some e := by
          simpa only [Dialect.Takes, hbind, true_and, Classical.not_imp,
            Option.ne_none_iff_exists', ne_eq] using hnot
        obtain ⟨hs, e, he⟩ := hrow
        rw [SqlAlchemyStore.getOrCreate_refused hv hbind he hs]
        exact ⟨⟨e, rfl⟩, rfl⟩
    | save s =>
      obtain ⟨x, hx, hid, -⟩ := hop
      obtain ⟨e, he⟩ := Db.updateSession_of_not_takes ⟨s.key, x, hx, hid⟩ hnot
      have hsession : SqlAlchemyStore.validateSession s = .ok () := hv
      simp only [SessionStore.perform, sqlAlchemySessionStore, SqlAlchemyStore.save, hsession, he]
      exact ⟨⟨e, rfl⟩, trivial⟩
    | isProcessed sid mid =>
      have hmessage : SqlAlchemyStore.validateMessage sid mid = .ok () := hv
      obtain ⟨e, he⟩ := Option.ne_none_iff_exists'.mp hnot
      simp only [SessionStore.perform, sqlAlchemySessionStore, SqlAlchemyStore.isProcessed,
        hmessage, Db.selectProcessed, he]
      exact ⟨⟨e, rfl⟩, trivial⟩
    | markProcessed sid mid =>
      have hmessage : SqlAlchemyStore.validateMessage sid mid = .ok () := hv
      obtain ⟨e, he⟩ := Option.ne_none_iff_exists'.mp hnot
      obtain ⟨message, rfl⟩ := Db.refusal_isColumn he
      simp only [SessionStore.perform, sqlAlchemySessionStore, SqlAlchemyStore.markProcessed,
        hmessage, Db.insertProcessed, he]
      exact ⟨⟨_, rfl⟩, trivial⟩
  accepts_message h := ⟨h, h⟩

end ClawEngine.Persistence
