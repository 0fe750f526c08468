import ClawEngine.Laws.LedgerHandle

/-!
# handle is the reference conversation

The **reference conversation** is read off the calls that were made and what they ended with: the
first call for a natural key fixes its session, and each successful turn since is one round. It
knows nothing of stores. Calls of `handle` made one after another over a fresh memory store run the
backends, answer and leave the store's dictionaries as the reference says.

The invariant of the run is that the store is the reference's ledger. One more entry changes the
reference as `ledgerHandle` changes a ledger, whichever way the call ends.
-/

set_option autoImplicit false

namespace ClawEngine.Orchestration

open ClawEngine.Core ClawEngine.Runtime ClawEngine.Observability ClawEngine.Persistence

variable {V ω τ σ : Type}

/-- What `handle` acts on: a memory store and an engine. -/
abbrev MemoryWorld (V ω τ : Type) := World (MemoryStore V) (EngineState V ω τ)

/-- A finished call. -/
structure Entry (V ω τ : Type) where
  draws : Draws
  call : Call V
  before : MemoryWorld V ω τ
  outcome : Except (Raised V) (AgentRunResult V)
  after : MemoryWorld V ω τ

/-- Calls of `handle`, one after another. -/
def history (engine : Engine V ω τ σ) : List (Draws × Call V) → MemoryWorld V ω τ →
    List (Entry V ω τ)
  | [], _ => []
  | (d, c) :: calls, w =>
    let out := runHandle memorySessionStore (engineTurn engine) d c w
    ⟨d, c, w, out.1, out.2⟩ :: history engine calls out.2

/-! ## The reference -/

/-- The successful turns on a key, oldest first, with their results. -/
def successes (past : List (Entry V ω τ)) (k : Key) : List (Entry V ω τ × AgentRunResult V) :=
  past.filterMap fun e => if e.call.key = k then e.outcome.toOption.map (e, ·) else none

/-- The session of a key: fixed by the first call for it, with a round for each success. -/
def refSession (past : List (Entry V ω τ)) (k : Key) : Option (Session V) :=
  (past.find? (·.call.key = k)).map fun first =>
    { sessionId := first.draws.uuid, workspaceId := k.workspaceId, channel := k.channel
      externalThreadKey := k.externalThreadKey, backendName := first.call.backendName
      backendThreadId := (successes past k).getLast?.bind (·.2.backendThreadId)
      roundCount := (successes past k).length, maxRounds := first.call.maxRounds
      lastActive := (successes past k).getLast?.elim (.finite 0) (·.1.draws.now) }

/-- A message was completed on a key: the turn of a call that carried it succeeded. -/
def completed (past : List (Entry V ω τ)) (k : Key) (mid : String) : Bool :=
  (successes past k).any (·.1.call.messageId = some mid)

/-- The session a call is on. -/
def sessionFor (past : List (Entry V ω τ)) (e : Entry V ω τ) : Session V :=
  (refSession past e.call.key).getD (Session.create e.draws.uuid e.call.createArgs)

/-- A call runs a turn: its message is new on its key, and the session has a round left. -/
def Runs (past : List (Entry V ω τ)) (e : Entry V ω τ) : Prop :=
  (∀ mid, e.call.messageId = some mid → completed past e.call.key mid = false) ∧
    (sessionFor past e).roundCount < (sessionFor past e).maxRounds

/-- The requests a turn hands to backends: one, when its backend is registered. -/
def turnRequests (engine : Engine V ω τ σ) (t : TurnArgs V) : List (SentRequest V) :=
  match engine.registry t.backendName with
  | none => []
  | some backend => [⟨t.backendName, turnRequest backend.capabilities t⟩]

/-- A session after a call on it. -/
def afterCall (e : Entry V ω τ) (s : Session V) : Session V :=
  match e.outcome with
  | .ok r => s.withTurn r.backendThreadId e.draws.now
  | .error _ => s

/-- A call did what the reference says after the calls before it. -/
structure Follows (engine : Engine V ω τ σ) (past : List (Entry V ω τ)) (e : Entry V ω τ) :
    Prop where
  duplicate : ∀ mid, e.call.messageId = some mid → completed past e.call.key mid = true →
    e.outcome = .error (.duplicateMessage (sessionFor past e).sessionId mid)
  exceeded : (∀ mid, e.call.messageId = some mid → completed past e.call.key mid = false) →
    (sessionFor past e).maxRounds ≤ (sessionFor past e).roundCount →
      e.outcome = .error (.sessionRoundsExceeded (sessionFor past e).sessionId
        (sessionFor past e).maxRounds)
  idle : ¬ Runs past e → e.after.engine = e.before.engine
  runs : Runs past e →
    (e.outcome, e.after.engine) =
      engineTurn engine (e.call.turnArgs (sessionFor past e)) e.before.engine ∧
    e.after.engine.sent = e.before.engine.sent ++
      turnRequests engine (e.call.turnArgs (sessionFor past e))
  sessions : ∀ k, e.after.store.ledger.session k =
    if k = e.call.key then some (afterCall e (sessionFor past e))
    else e.before.store.ledger.session k
  marks : ∀ id mid, e.after.store.processed (id, mid) = true ↔
    e.before.store.processed (id, mid) = true ∨
      ((∃ r, e.outcome = .ok r) ∧ id = (sessionFor past e).sessionId ∧
        e.call.messageId = some mid)

/-! ## One more entry -/

section Snoc

variable {past : List (Entry V ω τ)} {e : Entry V ω τ} {k : Key}

theorem successes_snoc (past : List (Entry V ω τ)) (e : Entry V ω τ) (k : Key) :
    successes (past ++ [e]) k = successes past k ++
      if e.call.key = k then (e.outcome.toOption.map (e, ·)).toList else [] := by
  rw [successes, List.filterMap_append, successes]
  split
  · next h => cases he : e.outcome <;> simp [h, he, Except.toOption]
  · next h => simp [h]

theorem successes_of_new (h : past.find? (·.call.key = k) = none) : successes past k = [] := by
  rw [successes, List.filterMap_eq_nil_iff]
  intro e he
  have hk := List.find?_eq_none.mp h e he
  simp only [decide_eq_true_eq] at hk
  exact if_neg hk

/-- Calls on other keys leave a key's session alone; one on it changes it as `afterCall` says. -/
theorem refSession_snoc (past : List (Entry V ω τ)) (e : Entry V ω τ) (k : Key) :
    refSession (past ++ [e]) k =
      if k = e.call.key then some (afterCall e (sessionFor past e)) else refSession past k := by
  by_cases hk : k = e.call.key
  · subst hk
    simp only [refSession, successes_snoc, if_true, sessionFor, List.find?_append]
    cases hfind : past.find? (·.call.key = e.call.key) with
    | none =>
      rw [successes_of_new hfind]
      cases he : e.outcome <;>
        simp [he, Except.toOption, afterCall, Session.withTurn, Session.create, Call.createArgs]
    | some first =>
      cases he : e.outcome <;> simp [he, Except.toOption, afterCall, Session.withTurn]
  · simp only [refSession, successes_snoc, if_neg (Ne.symm hk), if_neg hk, List.append_nil,
      List.find?_append, List.find?_singleton, decide_eq_false (Ne.symm hk), Bool.false_eq_true,
      if_false, Option.or_none]

theorem completed_snoc (past : List (Entry V ω τ)) (e : Entry V ω τ) (k : Key) (mid : String) :
    completed (past ++ [e]) k mid = true ↔ completed past k mid = true ∨
      (e.call.key = k ∧ (∃ r, e.outcome = .ok r) ∧ e.call.messageId = some mid) := by
  simp only [completed, successes_snoc, List.any_append, Bool.or_eq_true]
  refine or_congr_right ?_
  split
  · next h => cases he : e.outcome <;> simp [h, Except.toOption]
  · next h => simp [h]

/-- The ids of the reference are those its entries were supplied with. -/
theorem refSession_uuid {s : Session V} (h : refSession past k = some s) :
    s.sessionId ∈ past.map (·.draws.uuid) := by
  obtain ⟨first, hfirst, rfl⟩ := Option.map_eq_some_iff.mp h
  exact List.mem_map_of_mem (List.mem_of_find?_eq_some hfirst)

theorem refSession_of_completed {mid : String} (h : completed past k mid = true) :
    ∃ s, refSession past k = some s := by
  cases hfind : past.find? (·.call.key = k) with
  | none =>
    rw [completed, successes_of_new hfind] at h
    cases h
  | some first => exact ⟨_, by rw [refSession, hfind]; rfl⟩

end Snoc

/-! ## The reference's ledger -/

/-- The ledger of the reference. -/
def refLedger (past : List (Entry V ω τ)) : Ledger V where
  session := refSession past
  processed id mid := past.any fun e =>
    (refSession past e.call.key).any (·.sessionId = id) && completed past e.call.key mid

/-- The ledger after a call on the session `s` ended with `outcome`. -/
def recordCall (s : Session V) (d : Draws) (c : Call V)
    (outcome : Except (Raised V) (AgentRunResult V)) (L : Ledger V) : Ledger V where
  session k :=
    if k = c.key then
      some (match outcome with
        | .ok r => s.withTurn r.backendThreadId d.now
        | .error _ => s)
    else L.session k
  processed id mid :=
    L.processed id mid || (outcome.isOk && (id = s.sessionId && c.messageId = some mid))

theorem refLedger_processed {past : List (Entry V ω τ)} {id mid : String} :
    (refLedger past).processed id mid = true ↔
      ∃ k s, refSession past k = some s ∧ s.sessionId = id ∧ completed past k mid = true := by
  simp only [refLedger, List.any_eq_true, Bool.and_eq_true, Option.any_eq_true,
    decide_eq_true_eq]
  constructor
  · rintro ⟨e, -, ⟨s, hs, hid⟩, hdone⟩
    exact ⟨e.call.key, s, hs, hid, hdone⟩
  · rintro ⟨k, s, hs, hid, hdone⟩
    obtain ⟨first, hfirst, -⟩ := Option.map_eq_some_iff.mp hs
    have hk : first.call.key = k := by simpa using List.find?_some hfirst
    subst hk
    exact ⟨first, List.mem_of_find?_eq_some hfirst, ⟨s, hs, hid⟩, hdone⟩

/-- One more entry records its call in the reference's ledger. -/
theorem refLedger_snoc (past : List (Entry V ω τ)) (e : Entry V ω τ) :
    refLedger (past ++ [e]) =
      recordCall (sessionFor past e) e.draws e.call e.outcome (refLedger past) := by
  apply Ledger.ext
  · funext k
    exact refSession_snoc past e k
  · funext id mid
    rw [Bool.eq_iff_iff, refLedger_processed]
    simp only [recordCall, Bool.or_eq_true, Bool.and_eq_true, decide_eq_true_eq,
      refLedger_processed]
    have hid : ∀ k s, refSession past k = some s → ∃ s', refSession (past ++ [e]) k = some s' ∧
        s'.sessionId = s.sessionId := by
      intro k s hs
      rw [refSession_snoc]
      split
      · next hk =>
        subst hk
        refine ⟨_, rfl, ?_⟩
        rw [sessionFor, hs, Option.getD_some, afterCall]
        split <;> rfl
      · exact ⟨s, hs, rfl⟩
    have hown : ∃ s', refSession (past ++ [e]) e.call.key = some s' ∧
        s'.sessionId = (sessionFor past e).sessionId := by
      refine ⟨_, (refSession_snoc past e _).trans (if_pos rfl), ?_⟩
      rw [afterCall]
      split <;> rfl
    constructor
    · rintro ⟨k, s, hs, rfl, hdone⟩
      rcases (completed_snoc past e k mid).mp hdone with hdone | ⟨rfl, ⟨r, hr⟩, hmid⟩
      · obtain ⟨s₀, hs₀⟩ := refSession_of_completed hdone
        obtain ⟨s', hs', hid'⟩ := hid k s₀ hs₀
        rw [hs] at hs'
        cases hs'
        exact .inl ⟨k, s₀, hs₀, hid'.symm, hdone⟩
      · obtain ⟨s', hs', hid'⟩ := hown
        rw [hs] at hs'
        cases hs'
        exact .inr ⟨by rw [hr]; rfl, hid', hmid⟩
    · rintro (⟨k, s, hs, rfl, hdone⟩ | ⟨hok, rfl, hmid⟩)
      · obtain ⟨s', hs', hid'⟩ := hid k s hs
        exact ⟨k, s', hs', hid', (completed_snoc past e k mid).mpr (.inl hdone)⟩
      · obtain ⟨s', hs', hid'⟩ := hown
        refine ⟨e.call.key, s', hs', hid', (completed_snoc past e _ mid).mpr (.inr ⟨rfl, ?_, hmid⟩)⟩
        cases he : e.outcome with
        | ok r => exact ⟨r, rfl⟩
        | error x => rw [he] at hok; cases hok

/-- `get_or_create` records a call that has not succeeded. -/
theorem perform_eq_recordCall {L : Ledger V} (hL : L.WF) (d : Draws) (c : Call V) (x : Raised V) :
    (L.perform id (.getOrCreate d.uuid c.createArgs)).2 =
      recordCall (sessionOf L d c) d c (.error x) L := by
  apply Ledger.ext
  · funext k
    simp only [recordCall]
    split
    · next hk =>
      rw [hk]
      exact (session_sessionOf hL id d c).1
    · next hk =>
      simp only [Ledger.perform]
      split
      · rfl
      · rw [Ledger.create_session]
        exact if_neg hk
  · funext id mid
    simp only [recordCall, Except.isOk, Except.toBool, Bool.false_and, Bool.or_false,
      Ledger.perform]
    split <;> rfl

/-- A saved and marked turn records a call that succeeded. -/
theorem save_eq_recordCall {L : Ledger V} (hL : L.WF) {d : Draws} (hfresh : ¬ L.Knows d.uuid)
    (c : Call V) (r : AgentRunResult V) :
    markMessage (sessionOf L d c) c ((L.perform id (.getOrCreate d.uuid c.createArgs)).2.save
        ((sessionOf L d c).withTurn r.backendThreadId d.now)) =
      recordCall (sessionOf L d c) d c (.ok r) L := by
  obtain ⟨hsession, hkey⟩ := session_sessionOf hL id d c
  have hcreate := perform_eq_recordCall hL d c .noTerminalEvent
  have hallows : (L.perform id (.getOrCreate d.uuid c.createArgs)).2.Allows
      (.save ((sessionOf L d c).withTurn r.backendThreadId d.now)) :=
    ⟨sessionOf L d c, by rw [Session.withTurn_key, hkey]; exact hsession, rfl, rfl⟩
  have hL₁ : (L.perform id (.getOrCreate d.uuid c.createArgs)).2.WF := hL.perform hfresh
  have hprocessed : (L.perform id (.getOrCreate d.uuid c.createArgs)).2.processed =
      L.processed := by
    simp only [Ledger.perform]
    split <;> rfl
  apply Ledger.ext
  · funext k
    have hmark : (markMessage (sessionOf L d c) c ((L.perform id
        (.getOrCreate d.uuid c.createArgs)).2.save
          ((sessionOf L d c).withTurn r.backendThreadId d.now))).session =
        ((L.perform id (.getOrCreate d.uuid c.createArgs)).2.save
          ((sessionOf L d c).withTurn r.backendThreadId d.now)).session := by
      rw [markMessage]
      split <;> rfl
    rw [hmark, Ledger.save_session hL₁ hallows, Session.withTurn_key, hkey]
    simp only [recordCall]
    split
    · rfl
    · next hk =>
      rw [hcreate]
      exact if_neg hk
  · funext x y
    cases hmid : c.messageId with
    | none =>
      simp only [markMessage, hmid, Ledger.save_processed, hprocessed, recordCall, reduceCtorEq,
        decide_false, Bool.and_false, Bool.or_false]
    | some mid =>
      rw [Bool.eq_iff_iff]
      simp only [markMessage, hmid, Ledger.mark_processed, Ledger.save_processed, hprocessed,
        recordCall, Except.isOk, Except.toBool, Bool.true_and, Bool.or_eq_true, Bool.and_eq_true,
        decide_eq_true_eq, Option.some.injEq]
      rw [eq_comm (a := mid)]

/-- **`ledgerHandle` records its call**, whichever way it ends. -/
theorem ledgerHandle_records {ε : Type} {L : Ledger V} (hL : L.WF) {d : Draws}
    (hfresh : ¬ L.Knows d.uuid) (turn : TurnFn V ε) (c : Call V) (e : ε) :
    (ledgerHandle id turn d c L e).2.1 =
      recordCall (sessionOf L d c) d c (ledgerHandle id turn d c L e).1 L := by
  simp only [ledgerHandle]
  split
  · exact perform_eq_recordCall hL d c _
  · split
    · exact perform_eq_recordCall hL d c _
    · simp only [ledgerTurn]
      split
      · exact perform_eq_recordCall hL d c _
      · rw [Session.kept_id]
        exact save_eq_recordCall hL hfresh c _

/-! ## The run -/

/-- The state after some calls: the store is the reference's ledger, and no session has more rounds
than its limit. -/
structure Reached (past : List (Entry V ω τ)) (w : MemoryWorld V ω τ) : Prop where
  store : IsLedger (memoryLawful V) w.store (refLedger past)
  rounds : ∀ k s, refSession past k = some s → s.roundCount ≤ max 0 s.maxRounds

/-- The call made of `d` and `c` in the world `w`. -/
def entryOf (engine : Engine V ω τ σ) (d : Draws) (c : Call V) (w : MemoryWorld V ω τ) :
    Entry V ω τ :=
  ⟨d, c, w, (runHandle memorySessionStore (engineTurn engine) d c w).1,
    (runHandle memorySessionStore (engineTurn engine) d c w).2⟩

section Step

variable {engine : Engine V ω τ σ} {past : List (Entry V ω τ)} {w : MemoryWorld V ω τ}
  {d : Draws} {c : Call V}

theorem unknown_of_fresh (hfresh : d.uuid ∉ past.map (·.draws.uuid)) :
    ¬ (refLedger past).Knows d.uuid := by
  rintro ⟨k, s, hs, hid⟩
  exact hfresh (hid ▸ refSession_uuid hs)

/-- The duplicate check of the code is the reference's. -/
theorem isDuplicate_iff (h : Reached past w) (e : Entry V ω τ)
    (hfresh : e.draws.uuid ∉ past.map (·.draws.uuid)) :
    isDuplicate ((refLedger past).perform id
        (.getOrCreate e.draws.uuid e.call.createArgs)).2 (sessionFor past e) e.call = true ↔
      ∃ mid, e.call.messageId = some mid ∧ completed past e.call.key mid = true := by
  have hwf : (refLedger past).WF := h.store.2 ▸ (memoryLawful V).wf h.store.1
  have hprocessed : ((refLedger past).perform id
      (.getOrCreate e.draws.uuid e.call.createArgs)).2.processed = (refLedger past).processed := by
    simp only [Ledger.perform]
    split <;> rfl
  rw [isDuplicate, hprocessed, Option.any_eq_true]
  refine exists_congr fun mid => and_congr_right fun _ => ?_
  rw [refLedger_processed]
  constructor
  · rintro ⟨k, s, hs, hid, hdone⟩
    rw [sessionFor] at hid
    cases hown : refSession past e.call.key with
    | none =>
      rw [hown] at hid
      exact absurd ⟨k, s, hs, hid⟩ (unknown_of_fresh hfresh)
    | some s' =>
      rw [hown] at hid
      obtain rfl : k = e.call.key := hwf.id_inj hs hown hid
      exact hdone
  · intro hdone
    obtain ⟨s, hs⟩ := refSession_of_completed hdone
    exact ⟨e.call.key, s, hs, by rw [sessionFor, hs]; rfl, hdone⟩

/-- What the entry of a call is, by the ledger. -/
theorem entryOf_eq (engine : Engine V ω τ σ) (c : Call V) (h : Reached past w)
    (hfresh : d.uuid ∉ past.map (·.draws.uuid)) :
    Refines (memoryLawful V) ((entryOf engine d c w).outcome, (entryOf engine d c w).after)
      (ledgerHandle id (engineTurn engine) d c (refLedger past) w.engine) := by
  have hrefines := runHandle_refines (engineTurn engine) (S := memoryLawful V) (d := d)
    (c := c) (fun _ _ => trivial) h.store.1 (by rw [h.store.2]; exact unknown_of_fresh hfresh)
  rw [h.store.2] at hrefines
  exact hrefines

/-- The store after a call is the reference's ledger with its entry. -/
theorem entryOf_store (engine : Engine V ω τ σ) (c : Call V) (h : Reached past w)
    (hfresh : d.uuid ∉ past.map (·.draws.uuid)) :
    IsLedger (memoryLawful V) (entryOf engine d c w).after.store
      (refLedger (past ++ [entryOf engine d c w])) := by
  obtain ⟨hout, hstore, -⟩ := entryOf_eq engine c h hfresh
  have hwf : (refLedger past).WF := h.store.2 ▸ (memoryLawful V).wf h.store.1
  rw [ledgerHandle_records hwf (unknown_of_fresh hfresh), ← hout] at hstore
  rw [refLedger_snoc]
  exact hstore

/-- The turn that follows the two checks. -/
theorem ledgerTurn_outcome {ε : Type} (turn : TurnFn V ε) (d : Draws) (c : Call V) (s : Session V)
    (L : Ledger V) (e : ε) : ((ledgerTurn id turn d c s L e).1, (ledgerTurn id turn d c s L e).2.2) =
      turn (c.turnArgs s) e := by
  simp only [ledgerTurn]
  split <;> next h => rw [h]

/-- **The three ways of a call**: it is refused as a duplicate, it is refused for its rounds, or it
runs a turn and ends as the turn does. -/
theorem entryOf_cases (engine : Engine V ω τ σ) (c : Call V) (h : Reached past w)
    (hfresh : d.uuid ∉ past.map (·.draws.uuid)) :
    let e := entryOf engine d c w
    (∃ mid, c.messageId = some mid ∧ completed past c.key mid = true ∧
        e.outcome = .error (.duplicateMessage (sessionFor past e).sessionId mid) ∧
        e.after.engine = w.engine) ∨
      ((∀ mid, c.messageId = some mid → completed past c.key mid = false) ∧
        (sessionFor past e).maxRounds ≤ (sessionFor past e).roundCount ∧
        e.outcome = .error (.sessionRoundsExceeded (sessionFor past e).sessionId
          (sessionFor past e).maxRounds) ∧ e.after.engine = w.engine) ∨
      (Runs past e ∧ (e.outcome, e.after.engine) =
        engineTurn engine (c.turnArgs (sessionFor past e)) w.engine) := by
  intro e
  obtain ⟨hout, -, hengine⟩ := entryOf_eq engine c h hfresh
  have hdup := isDuplicate_iff h e hfresh
  simp only [ledgerHandle] at hout hengine
  by_cases hd : isDuplicate ((refLedger past).perform id (.getOrCreate d.uuid c.createArgs)).2
      (sessionOf (refLedger past) d c) c = true
  · rw [if_pos hd] at hout hengine
    obtain ⟨mid, hmid, hdone⟩ := hdup.mp hd
    refine .inl ⟨mid, hmid, hdone, ?_, hengine⟩
    refine hout.trans ?_
    rw [show c.messageId = some mid from hmid]
    rfl
  · rw [if_neg hd] at hout hengine
    have hnew : ∀ mid, c.messageId = some mid → completed past c.key mid = false := by
      intro mid hmid
      rw [Bool.eq_false_iff]
      exact fun hdone => hd (hdup.mpr ⟨mid, hmid, hdone⟩)
    by_cases hr : (sessionOf (refLedger past) d c).roundCount ≥
        (sessionOf (refLedger past) d c).maxRounds
    · rw [if_pos hr] at hout hengine
      exact .inr (.inl ⟨hnew, hr, hout, hengine⟩)
    · rw [if_neg hr] at hout hengine
      refine .inr (.inr ⟨⟨hnew, not_le.mp hr⟩, ?_⟩)
      rw [show e.outcome = _ from hout, show e.after.engine = _ from hengine]
      exact ledgerTurn_outcome _ d c _ _ _

/-- A turn's requests are recorded as sent. -/
theorem engineTurn_sent (engine : Engine V ω τ σ) (t : TurnArgs V) (s : EngineState V ω τ) :
    (engineTurn engine t s).2.sent = s.sent ++ turnRequests engine t := by
  rw [turnRequests]
  split
  · next h => rw [engineTurn, runTurn_unregistered h, List.append_nil]
  · next backend h => exact runTurn_sent h

theorem entryOf_follows (h : Reached past w) (hfresh : d.uuid ∉ past.map (·.draws.uuid)) :
    Follows engine past (entryOf engine d c w) := by
  have hcases := entryOf_cases engine c h hfresh
  have hstore := (entryOf_store engine c h hfresh).2
  have hbefore : (entryOf engine d c w).before.store.ledger = refLedger past := h.store.2
  have hafter : (entryOf engine d c w).after.store.ledger =
      recordCall (sessionFor past (entryOf engine d c w)) d c (entryOf engine d c w).outcome
        (refLedger past) := hstore.trans (refLedger_snoc past _)
  generalize he : entryOf engine d c w = e at hcases hbefore hafter
  obtain ⟨rfl, rfl, rfl⟩ : e.draws = d ∧ e.call = c ∧ e.before = w := by subst he; exact ⟨rfl, rfl, rfl⟩
  constructor
  · intro mid hmid hdone
    rcases hcases with ⟨mid', hmid', -, hout, -⟩ | ⟨hnew, -⟩ | ⟨hruns, -⟩
    · rw [hmid] at hmid'
      cases hmid'
      exact hout
    · rw [hnew mid hmid] at hdone
      cases hdone
    · rw [hruns.1 mid hmid] at hdone
      cases hdone
  · intro hnew hrounds
    rcases hcases with ⟨mid, hmid, hdone, -⟩ | ⟨-, -, hout, -⟩ | ⟨hruns, -⟩
    · rw [hnew mid hmid] at hdone
      cases hdone
    · exact hout
    · exact absurd hruns.2 (not_lt.mpr hrounds)
  · intro hidle
    rcases hcases with ⟨_, -, -, -, hengine⟩ | ⟨-, -, -, hengine⟩ | ⟨hruns, -⟩
    · exact hengine
    · exact hengine
    · exact absurd hruns hidle
  · intro hruns
    rcases hcases with ⟨mid, hmid, hdone, -⟩ | ⟨-, hrounds, -⟩ | ⟨-, hturn⟩
    · rw [hruns.1 mid hmid] at hdone
      cases hdone
    · exact absurd hruns.2 (not_lt.mpr hrounds)
    · refine ⟨hturn, ?_⟩
      rw [← engineTurn_sent, ← hturn]
  · intro k
    rw [hafter, hbefore]
    rfl
  · intro id mid
    have hprocessed : ∀ m : MemoryStore V, m.processed (id, mid) = m.ledger.processed id mid :=
      fun _ => rfl
    rw [hprocessed, hprocessed, hafter, hbefore]
    simp only [recordCall, Bool.or_eq_true, Bool.and_eq_true, decide_eq_true_eq]
    refine or_congr_right (and_congr_left fun _ => ?_)
    cases e.outcome with
    | error x => simp only [Except.isOk, Except.toBool, Bool.false_eq_true, reduceCtorEq, exists_false]
    | ok r => simp only [Except.isOk, Except.toBool, Except.ok.injEq, exists_eq']

theorem entryOf_reached (engine : Engine V ω τ σ) (c : Call V) (h : Reached past w)
    (hfresh : d.uuid ∉ past.map (·.draws.uuid)) :
    Reached (past ++ [entryOf engine d c w]) (entryOf engine d c w).after where
  store := entryOf_store engine c h hfresh
  rounds := by
    intro k s hs
    rw [refSession_snoc] at hs
    split at hs
    swap
    · exact h.rounds k s hs
    cases hs
    have hbefore : (sessionFor past (entryOf engine d c w)).roundCount ≤
        max 0 (sessionFor past (entryOf engine d c w)).maxRounds := by
      rw [sessionFor]
      cases hown : refSession past (entryOf engine d c w).call.key with
      | none => exact le_max_left _ _
      | some s => exact h.rounds _ s hown
    rcases entryOf_cases engine c h hfresh with
      ⟨_, -, -, hout, -⟩ | ⟨-, -, hout, -⟩ | ⟨hruns, -⟩
    · rw [afterCall, hout]
      exact hbefore
    · rw [afterCall, hout]
      exact hbefore
    · rw [afterCall]
      split
      · rw [Session.withTurn_roundCount, Session.withTurn_maxRounds]
        have := hruns.2
        omega
      · exact hbefore

end Step

/-- Every call of a run follows the reference, from any reached state. -/
theorem history_follows (engine : Engine V ω τ σ) {calls : List (Draws × Call V)}
    {past before rest : List (Entry V ω τ)} {w : MemoryWorld V ω τ} {e : Entry V ω τ}
    (h : Reached past w) (hfresh : (past.map (·.draws.uuid) ++ calls.map (·.1.uuid)).Nodup)
    (hcalls : history engine calls w = before ++ e :: rest) :
    Follows engine (past ++ before) e ∧ Reached (past ++ before) e.before ∧
      Reached (past ++ before ++ [e]) e.after := by
  induction calls generalizing past before w with
  | nil => simp only [history, List.nil_eq, List.append_eq_nil_iff, reduceCtorEq, and_false] at hcalls
  | cons call calls ih =>
    obtain ⟨d, c⟩ := call
    have hd : d.uuid ∉ past.map (·.draws.uuid) := by
      intro hmem
      exact (List.nodup_append.mp hfresh).2.2 _ hmem _ List.mem_cons_self rfl
    have hhead : history engine ((d, c) :: calls) w =
        entryOf engine d c w :: history engine calls (entryOf engine d c w).after := rfl
    rw [hhead] at hcalls
    cases before with
    | nil =>
      obtain ⟨rfl, -⟩ := List.cons_eq_cons.mp hcalls
      rw [List.append_nil]
      exact ⟨entryOf_follows h hd, h, entryOf_reached _ _ h hd⟩
    | cons first before =>
      obtain ⟨rfl, htail⟩ := List.cons_eq_cons.mp hcalls
      have hnext := ih (entryOf_reached engine c h hd) (by
        rw [List.map_append, List.append_assoc]
        exact hfresh) htail
      rw [List.append_assoc, List.singleton_append] at hnext
      exact hnext

theorem reached_nil (s₀ : EngineState V ω τ) :
    Reached ([] : List (Entry V ω τ)) ⟨MemoryStore.empty, s₀⟩ where
  store := ⟨MemoryStore.Inv.empty, rfl⟩
  rounds k s hs := by cases hs

end ClawEngine.Orchestration
