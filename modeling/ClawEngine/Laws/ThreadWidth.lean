import ClawEngine.Laws.Recording
import ClawEngine.Persistence.Lawful

/-!
# Completed turns and the width of a column

The SQLAlchemy store checks each field where it is first given it. All that comes with a message is
checked before the turn; the thread id comes out of the turn, and `save` is the first to look at it.
A completed turn is recorded exactly if that id fits its column: there is none, or it has between 1
and 256 characters.
-/

set_option autoImplicit false

namespace ClawEngine.Orchestration

open ClawEngine.Core ClawEngine.Runtime ClawEngine.Persistence ClawEngine.Persistence.SqlAlchemyStore

variable {ε : Type}

/-! ## What the checks accept -/

/-- A field with a cap takes the texts of that width that are not empty. -/
theorem validateField_capped {name : String} {cap : Nat} (hcap : fieldCaps.lookup name = some cap)
    (value : String) (nullable : Bool) :
    validateField name (some value) nullable = .ok () ↔ 0 < value.length ∧ value.length ≤ cap := by
  simp only [validateField, hcap]
  split
  · simp only [reduceCtorEq, false_iff]
    omega
  · split
    · simp only [reduceCtorEq, false_iff]
      omega
    · simp only [true_iff]
      omega

/-- A check that fails is a `ValueError`. -/
theorem validateField_error {name : String} {value : Option String} {nullable : Bool} {e : StoreError}
    (h : validateField name value nullable = .error e) : ∃ message, e = .valueError message := by
  unfold validateField at h
  split at h
  · split at h
    · cases h
    · cases h
      exact ⟨_, rfl⟩
  · split at h
    · cases h
      exact ⟨_, rfl⟩
    · split at h
      · cases h
      · split at h
        · cases h
          exact ⟨_, rfl⟩
        · cases h

/-- The thread ids that `save` accepts. -/
def FitsColumn : Option String → Prop
  | none => True
  | some threadId => 0 < threadId.length ∧ threadId.length ≤ 256

/-- The ids that `uuid4().hex` draws are not empty and fit their column. -/
def IdFits (sessionId : String) : Prop := 0 < sessionId.length ∧ sessionId.length ≤ 64

/-- The ids of the sessions were drawn. -/
def DrawnIds (db : Db) : Prop := ∀ row ∈ db.sessions, IdFits row.sessionId

theorem caps_session : fieldCaps.lookup "session_id" = some 64 := by decide

theorem caps_thread : fieldCaps.lookup "backend_thread_id" = some 256 := by decide

/-- What is left of the checks of `save` for a drawn id. -/
theorem validateSession_drawn {s : Session String} (hid : IdFits s.sessionId) :
    validateSession s = match s.backendThreadId with
      | none => .ok ()
      | some threadId => validateField "backend_thread_id" (some threadId) true := by
  unfold validateSession
  rw [(validateField_capped caps_session _ _).mpr hid]
  cases s.backendThreadId <;> rfl

theorem validateSession_iff {s : Session String} (hid : IdFits s.sessionId) :
    validateSession s = .ok () ↔ FitsColumn s.backendThreadId := by
  rw [validateSession_drawn hid]
  cases s.backendThreadId with
  | none => exact ⟨fun _ => trivial, fun _ => rfl⟩
  | some threadId => exact validateField_capped caps_thread threadId true

theorem validateSession_error {s : Session String} (hid : IdFits s.sessionId)
    (hthread : ¬ FitsColumn s.backendThreadId) :
    ∃ message, validateSession s = .error (.valueError message) := by
  cases hv : validateSession s with
  | ok _ => exact absurd ((validateSession_iff hid).mp hv) hthread
  | error e =>
    rw [validateSession_drawn hid] at hv
    cases hthreadId : s.backendThreadId with
    | none =>
      rw [hthreadId] at hv
      cases hv
    | some threadId =>
      rw [hthreadId] at hv
      obtain ⟨message, rfl⟩ := validateField_error hv
      exact ⟨message, rfl⟩

/-! ## Ids stay drawn -/

section Drawn

variable {D : Dialect} {db : Db}

theorem DrawnIds.addSession (h : DrawnIds db) {s : Session String} (hid : IdFits s.sessionId)
    (hnew : db.New s) : DrawnIds (db.addSession s hnew) := by
  intro row hrow
  rcases List.mem_append.mp hrow with hrow | hrow
  · exact h row hrow
  · cases List.mem_singleton.mp hrow
    exact hid

theorem DrawnIds.setSession (h : DrawnIds db) (s : Session String) :
    DrawnIds (db.setSession s) := by
  intro row hrow
  obtain ⟨old, hold, rfl⟩ := List.mem_map.mp hrow
  split
  · exact h old hold
  · exact h old hold

/-- `get_or_create` inserts no session but one of the id that was drawn. -/
theorem getOrCreateProg_only (uuid : String) (a : CreateArgs) :
    (getOrCreateProg uuid a).Only fun op => ∀ s, op = .insertSession s → s.sessionId = uuid := by
  have hrefetch : (refetch a).Only fun op => ∀ s, op = .insertSession s → s.sessionId = uuid := by
    refine .vis nofun fun answer => ?_
    rcases answer with e | _ | row <;> exact .ret _
  have hinsert : (tryInsert uuid a).Only
      fun op => ∀ s, op = .insertSession s → s.sessionId = uuid := by
    refine .vis ?_ fun answer => ?_
    · rintro s hs
      cases hs
      rfl
    · rcases answer with e | row
      · cases e <;> first | exact hrefetch | exact .ret _
      · exact .ret _
  unfold getOrCreateProg
  split
  · exact .ret _
  · refine .vis nofun fun answer => ?_
    rcases answer with e | _ | row
    · exact .ret _
    · exact hinsert
    · exact .ret _

theorem DrawnIds.updateSession (h : DrawnIds db) {s : Session String} {db' : Db}
    (hupdated : db.updateSession D s = .ok db') : DrawnIds db' := by
  unfold Db.updateSession at hupdated
  split at hupdated
  · cases hupdated
  · split at hupdated
    · split at hupdated
      · cases hupdated
      · cases hupdated
        exact h.setSession _
    · cases hupdated
      exact h

theorem DrawnIds.insertProcessed (h : DrawnIds db) {sid mid : String} {db' : Db}
    (hinserted : db.insertProcessed D sid mid = .ok db') : DrawnIds db' := by
  unfold Db.insertProcessed at hinserted
  split at hinserted
  · cases hinserted
  · split at hinserted
    · split at hinserted
      · cases hinserted
      · cases hinserted
        exact h
    · cases hinserted

/-- **Every operation of the store keeps them**, where a drawn id is one. -/
theorem DrawnIds.perform (h : DrawnIds db) (op : StoreOp String)
    (hid : ∀ uuid a, op = .getOrCreate uuid a → IdFits uuid) :
    DrawnIds ((sqlAlchemySessionStore D).perform op db).2 := by
  cases op with
  | getOrCreate uuid a =>
    refine (getOrCreateProg_only uuid a).run_keeps (txHandler D) (fun op db hop hdb => ?_) h
    cases op with
    | selectSession k => exact hdb
    | insertSession s =>
      have hfits : IdFits s.sessionId := hop s rfl ▸ hid uuid a rfl
      simp only [txHandler, Db.insertSession]
      cases Db.rowRefusal D s with
      | some e => exact hdb
      | none =>
        cases D.float s.lastActive with
        | error e => exact hdb
        | ok t =>
          by_cases hnew : db.New s
          · simp only [dif_pos hnew]
            exact hdb.addSession (s := { s with lastActive := t }) hfits hnew
          · simp only [dif_neg hnew]
            exact hdb
  | save s =>
    show DrawnIds (SqlAlchemyStore.save D s db).2
    unfold SqlAlchemyStore.save
    cases validateSession s with
    | error e => exact h
    | ok _ =>
      cases hupdated : db.updateSession D s with
      | error e => exact h
      | ok db' => exact h.updateSession hupdated
  | isProcessed sid mid =>
    show DrawnIds (SqlAlchemyStore.isProcessed D sid mid db).2
    unfold SqlAlchemyStore.isProcessed
    cases validateMessage sid mid <;> exact h
  | markProcessed sid mid =>
    show DrawnIds (SqlAlchemyStore.markProcessed D sid mid db).2
    unfold SqlAlchemyStore.markProcessed
    cases validateMessage sid mid with
    | error e => exact h
    | ok _ =>
      cases hinserted : db.insertProcessed D sid mid with
      | error e => cases e <;> exact h
      | ok db' => exact h.insertProcessed hinserted

end Drawn

/-! ## Completed turns -/

section Completed

variable {D : Dialect} {turn : TurnFn String ε} {w : World Db ε} {d : Draws} {c : Call String}
  {r : AgentRunResult String} {e : ε}

/-- The id of the session a call is on was drawn. -/
theorem sessionIn_drawn (hids : DrawnIds w.store) (huuid : IdFits d.uuid) :
    IdFits (sessionIn (sqlAlchemyLawful D) w d c).sessionId := by
  unfold sessionIn sessionOf
  cases hfound : ((sqlAlchemyLawful D).view w.store).session c.key with
  | none => exact huuid
  | some s => exact hids s (Db.ledger_session.mp hfound).1

theorem valid_turned (hids : DrawnIds w.store) (huuid : IdFits d.uuid) :
    SqlAlchemyStore.Valid (.save (turnedSession (sqlAlchemyLawful D) w d c r)) ↔
      FitsColumn r.backendThreadId :=
  validateSession_iff (s := turnedSession (sqlAlchemyLawful D) w d c r)
    (sessionIn_drawn (D := D) hids huuid)

/-- A thread id that fits: the round is counted and the message marked. -/
theorem fitting_turn_recorded (h : Completes (sqlAlchemyLawful D) turn w d c r e)
    (hids : DrawnIds w.store) (huuid : IdFits d.uuid)
    (htakes : D.Takes (lookedUp (sqlAlchemyLawful D) w d c)
      (.save (turnedSession (sqlAlchemyLawful D) w d c r)))
    (hfits : FitsColumn r.backendThreadId) :
    let out := runHandle (sqlAlchemySessionStore D) turn d c w
    let s := sessionIn (sqlAlchemyLawful D) w d c
    out.1 = .ok r ∧
      (∃ s', out.2.store.ledger.session c.key = some s' ∧ s'.roundCount = s.roundCount + 1 ∧
        s'.backendThreadId = r.backendThreadId) ∧
      ∀ mid, c.messageId = some mid → out.2.store.ledger.processed s.sessionId mid = true := by
  intro out s
  obtain ⟨hok, ⟨-, hleft⟩, -⟩ := runHandle_saved h ⟨(valid_turned hids huuid).mpr hfits, htakes⟩
  obtain ⟨hsessions, hmarks⟩ := recorded_found h
  have hledger : out.2.store.ledger = _ := hleft
  refine ⟨hok, ⟨(turnedSession (sqlAlchemyLawful D) w d c r).kept D.clock, ?_, rfl, rfl⟩,
    fun mid hmid => ?_⟩
  · rw [hledger, hsessions, if_pos rfl]
    rfl
  · rw [hledger]
    exact hmarks mid hmid

/-- A thread id that does not fit: the call raises, and nothing is recorded. -/
theorem wide_turn_refused (h : Completes (sqlAlchemyLawful D) turn w d c r e)
    (hids : DrawnIds w.store) (huuid : IdFits d.uuid) (hwide : ¬ FitsColumn r.backendThreadId) :
    let out := runHandle (sqlAlchemySessionStore D) turn d c w
    let s := sessionIn (sqlAlchemyLawful D) w d c
    (∃ message, out.1 = .error (.store (.valueError message))) ∧
      out.2.store.ledger.session c.key = some s ∧
      out.2.store.ledger.processed = w.store.ledger.processed := by
  intro out s
  obtain ⟨db, x, ⟨-, hview⟩, hx, hrun⟩ :=
    runHandle_unsaved h fun haccepts => hwide ((valid_turned hids huuid).mp haccepts.1)
  obtain ⟨message, hmessage⟩ :=
    validateSession_error (s := turnedSession (sqlAlchemyLawful D) w d c r)
      (sessionIn_drawn hids huuid) hwide
  have hperform : ((sqlAlchemyLawful D).ops.perform
      (.save (turnedSession (sqlAlchemyLawful D) w d c r)) db).1 =
        .error (.valueError message) := by
    show (SqlAlchemyStore.save D _ db).1 = _
    unfold SqlAlchemyStore.save
    rw [hmessage]
  rw [hperform] at hx
  cases hx
  have hout : out = (.error (.store (.valueError message)), ⟨db, e⟩) := hrun
  have hledger : db.ledger = lookedUp (sqlAlchemyLawful D) w d c := hview
  rw [hout]
  refine ⟨⟨message, rfl⟩, ?_, ?_⟩
  · show db.ledger.session c.key = _
    rw [hledger]
    exact (sessionIn_found h).1
  · show db.ledger.processed = _
    rw [hledger]
    simp only [lookedUp, Ledger.perform]
    split <;> rfl

/-- **A completed turn is recorded exactly if its thread id fits.** For every database and driver,
every state of the store and every call whose fields passed the checks before the turn, and which
the agent completed with `r`: where the database takes the values of the save, the call returns,
with one more round and the message marked, if there is no thread id or one of 1 to 256 characters;
otherwise it raises a `ValueError`, and the session and the marks are as the turn found them. -/
theorem completed_turn_recorded (h : Completes (sqlAlchemyLawful D) turn w d c r e)
    (hids : DrawnIds w.store) (huuid : IdFits d.uuid)
    (htakes : D.Takes (lookedUp (sqlAlchemyLawful D) w d c)
      (.save (turnedSession (sqlAlchemyLawful D) w d c r))) :
    let out := runHandle (sqlAlchemySessionStore D) turn d c w
    let s := sessionIn (sqlAlchemyLawful D) w d c
    (FitsColumn r.backendThreadId → out.1 = .ok r ∧
      (∃ s', out.2.store.ledger.session c.key = some s' ∧ s'.roundCount = s.roundCount + 1 ∧
        s'.backendThreadId = r.backendThreadId) ∧
      ∀ mid, c.messageId = some mid → out.2.store.ledger.processed s.sessionId mid = true) ∧
    (¬ FitsColumn r.backendThreadId →
      (∃ message, out.1 = .error (.store (.valueError message))) ∧
      out.2.store.ledger.session c.key = some s ∧
      out.2.store.ledger.processed = w.store.ledger.processed) :=
  ⟨fitting_turn_recorded h hids huuid htakes, wide_turn_refused h hids huuid⟩

end Completed

/-- A turn that always completes, on the given thread. -/
def threadTurn (threadId : String) : TurnFn String Unit := fun _ e =>
  (.ok { backendThreadId := some threadId, finalText := "done", usage := {} }, e)

def emptyDatabase : World Db Unit := ⟨Db.empty, ()⟩

/-- The call of a message that is new. -/
theorem threadTurn_completes (threadId : String) :
    Completes (sqlAlchemyLawful .sqlite) (threadTurn threadId) emptyDatabase ⟨"s1", .finite 1⟩
      (delivery "m1") { backendThreadId := some threadId, finalText := "done", usage := {} } () where
  inv := trivial
  fresh := by
    rintro ⟨k, s, hs, -⟩
    cases hs
  looks := ⟨rfl, rfl, fun _ => rfl⟩
  checks := by
    rintro mid hmid
    cases hmid
    exact ⟨rfl, rfl⟩
  new := by decide
  round := by decide
  turn := rfl

/-- A turn on the thread `thread` is recorded. -/
theorem completed_turn_recorded_short :
    let out := runHandle (sqlAlchemySessionStore .sqlite) (threadTurn "thread") ⟨"s1", .finite 1⟩
      (delivery "m1") emptyDatabase
    (∃ r, out.1 = .ok r) ∧ out.2.store.ledger.processed "s1" "m1" = true := by
  obtain ⟨hrecorded, -⟩ := completed_turn_recorded (threadTurn_completes "thread") nofun
    ⟨by decide, by decide⟩ ⟨rfl, _, rfl⟩
  obtain ⟨hok, -, hmarked⟩ := hrecorded ⟨by decide, by decide⟩
  exact ⟨⟨_, hok⟩, hmarked "m1" rfl⟩

/-- On the empty database a turn whose thread id is too long leaves a new session. -/
theorem threadTurn_unrecorded {threadId : String} (hlong : 256 < threadId.length) :
    let out := runHandle (sqlAlchemySessionStore .sqlite) (threadTurn threadId) ⟨"s1", .finite 1⟩
      (delivery "m1") emptyDatabase
    (∃ message, out.1 = .error (.store (.valueError message))) ∧
      (out.2.store.ledger.session (delivery "m1").key).map (·.roundCount) = some 0 ∧
      out.2.store.ledger.processed "s1" "m1" = false := by
  intro out
  have hwide : ¬ FitsColumn (some threadId) := fun hfits => absurd hfits.2 (not_le.mpr hlong)
  obtain ⟨hraised, hsession, hmarks⟩ := wide_turn_refused (threadTurn_completes threadId) nofun
    ⟨by decide, by decide⟩ hwide
  refine ⟨hraised, ?_, ?_⟩
  · rw [hsession]
    rfl
  · rw [hmarks]
    rfl

/-- A turn on a thread with an id of 257 characters completes, and is not recorded: the call raises,
no round is counted, and the message is not marked. -/
theorem wide_thread_unrecorded :
    let out := runHandle (sqlAlchemySessionStore .sqlite)
      (threadTurn (String.ofList (List.replicate 257 'x'))) ⟨"s1", .finite 1⟩ (delivery "m1")
      emptyDatabase
    (∃ message, out.1 = .error (.store (.valueError message))) ∧
      (out.2.store.ledger.session (delivery "m1").key).map (·.roundCount) = some 0 ∧
      out.2.store.ledger.processed "s1" "m1" = false :=
  threadTurn_unrecorded (by rw [String.length_ofList, List.length_replicate]; decide)

end ClawEngine.Orchestration
