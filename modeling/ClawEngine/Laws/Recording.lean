import ClawEngine.Laws.HandleTrace

/-!
# Recording a turn on a store that fails

After a successful turn `handle` makes two separate changes: it saves the round, then it marks the
message. Either may raise, before its effect or after it. The mark is only reached when the save
returned, so a marked message has its round; the round may be there without the mark, exactly when
the save took effect and the mark did not. A retry is refused as a duplicate if the message was
marked, and otherwise runs on the session as it was left.
-/

set_option autoImplicit false

namespace ClawEngine.Orchestration

open ClawEngine.Core ClawEngine.Runtime ClawEngine.Persistence

variable {V σ ε : Type}

/-! ## Faults -/

/-- When an operation that fails does so: before its effect, or after it took effect. -/
inductive FaultPoint
  | before | after
  deriving DecidableEq

/-- The faults of the two operations that follow a turn. -/
structure Faults where
  save : Option FaultPoint := none
  mark : Option FaultPoint := none

/-- An operation of a store with a fault. -/
def failing {A : Type} (fault : Option FaultPoint) (op : σ → Except StoreError A × σ) (s : σ) :
    Except StoreError A × σ :=
  match fault with
  | none => op s
  | some .before => (.error (.failure "store failure"), s)
  | some .after => (.error (.failure "store failure"), (op s).2)

/-- A store whose `save` and `mark_processed` fail as `f` says. -/
def withFaults (S : SessionStore V σ) (f : Faults) : SessionStore V σ :=
  { S with
    save := fun session => failing f.save (S.save session)
    markProcessed := fun sid mid => failing f.mark (S.markProcessed sid mid) }

/-! ## A call whose turn succeeds -/

/-- The ledger after the lookup of a call. -/
def lookedUp (S : LawfulStore V σ) (w : World σ ε) (d : Draws) (c : Call V) : Ledger V :=
  ((S.view w.store).perform S.clock (.getOrCreate d.uuid c.createArgs)).2

/-- The session a call is on, with its store in the state of `w`. -/
def sessionIn (S : LawfulStore V σ) (w : World σ ε) (d : Draws) (c : Call V) : Session V :=
  sessionOf (S.view w.store) d c

/-- The call reaches its turn, which succeeds with `r` and leaves the engine in `e`. -/
structure Completes (S : LawfulStore V σ) (turn : TurnFn V ε) (w : World σ ε) (d : Draws)
    (c : Call V) (r : AgentRunResult V) (e : ε) : Prop where
  inv : S.Inv w.store
  fresh : ¬ (S.view w.store).Knows d.uuid
  looks : S.Accepts (S.view w.store) (.getOrCreate d.uuid c.createArgs)
  checks : ∀ mid, c.messageId = some mid →
    S.Accepts (lookedUp S w d c) (.isProcessed (sessionIn S w d c).sessionId mid)
  new : isDuplicate (lookedUp S w d c) (sessionIn S w d c) c = false
  round : (sessionIn S w d c).roundCount < (sessionIn S w d c).maxRounds
  turn : turn (c.turnArgs (sessionIn S w d c)) w.engine = (.ok r, e)

/-- The session after the turn, as `save` is given it. -/
def turnedSession (S : LawfulStore V σ) (w : World σ ε) (d : Draws) (c : Call V)
    (r : AgentRunResult V) : Session V :=
  (sessionIn S w d c).withTurn r.backendThreadId d.now

/-- The save returns. -/
def SaveReturns (S : LawfulStore V σ) (f : Faults) (L : Ledger V) (s : Session V) : Prop :=
  f.save = none ∧ S.Accepts L (.save s)

/-- The save takes effect, whether it returns or not. -/
def SaveTakesEffect (S : LawfulStore V σ) (f : Faults) (L : Ledger V) (s : Session V) : Prop :=
  f.save ≠ some .before ∧ S.Accepts L (.save s)

/-- The mark is reached and takes effect. -/
def MarkTakesEffect (S : LawfulStore V σ) (f : Faults) (L : Ledger V) (s : Session V) : Prop :=
  SaveReturns S f L s ∧ f.mark ≠ some .before

section Recording

variable {S : LawfulStore V σ} {f : Faults} {turn : TurnFn V ε} {w : World σ ε} {d : Draws}
  {c : Call V} {r : AgentRunResult V} {e : ε} {mid : String}

/-- **An operation with a fault on a lawful store** returns, raises after its effect, or raises
without one. -/
theorem failing_cases {L : Ledger V} {s : σ} (op : StoreOp V) (fault : Option FaultPoint)
    (h : IsLedger S s L) (hop : L.Allows op) :
    (fault = none ∧ S.Accepts L op ∧
        (failing fault (S.ops.perform op) s).1 = .ok (L.perform S.clock op).1 ∧
        IsLedger S (failing fault (S.ops.perform op) s).2 (L.perform S.clock op).2) ∨
      (fault = some .after ∧ S.Accepts L op ∧
        (∃ x, (failing fault (S.ops.perform op) s).1 = .error x) ∧
        IsLedger S (failing fault (S.ops.perform op) s).2 (L.perform S.clock op).2) ∨
      (¬ (fault ≠ some .before ∧ S.Accepts L op) ∧
        (∃ x, (failing fault (S.ops.perform op) s).1 = .error x) ∧
        IsLedger S (failing fault (S.ops.perform op) s).2 L) := by
  obtain ⟨hinv, rfl⟩ := h
  by_cases ha : S.Accepts (S.view s) op
  · obtain ⟨hans, hinv', hview⟩ := S.accepted hinv hop ha
    match fault with
    | none => exact .inl ⟨rfl, ha, hans, hinv', hview⟩
    | some .after => exact .inr (.inl ⟨rfl, ha, ⟨_, rfl⟩, hinv', hview⟩)
    | some .before => exact .inr (.inr ⟨fun h => h.1 rfl, ⟨_, rfl⟩, hinv, rfl⟩)
  · obtain ⟨hans, hsame⟩ := S.refused hinv hop ha
    refine .inr (.inr ⟨fun h => ha h.2, ?_⟩)
    match fault with
    | none => exact ⟨hans, by rw [failing, hsame]; exact ⟨hinv, rfl⟩⟩
    | some .after => exact ⟨⟨_, rfl⟩, by rw [failing, hsame]; exact ⟨hinv, rfl⟩⟩
    | some .before => exact ⟨⟨_, rfl⟩, hinv, rfl⟩

/-- A store's operation that returns, as `handle` sees it. -/
theorem handler_of_ok {T : SessionStore V σ} (op : StoreOp V) {a : op.Res}
    (h : (T.perform op w.store).1 = .ok a) : handler T turn (.store op) w =
      (.ok a, { w with store := (T.perform op w.store).2 }) := by
  simp only [handler, h]
  rfl

theorem handler_of_error {T : SessionStore V σ} (op : StoreOp V) {x : StoreError}
    (h : (T.perform op w.store).1 = .error x) : handler T turn (.store op) w =
      (.error (.store x), { w with store := (T.perform op w.store).2 }) := by
  simp only [handler, h]
  rfl

/-- The call up to its save. -/
theorem runHandle_to_save (h : Completes S turn w d c r e) (f : Faults) :
    ∃ s, IsLedger S s (lookedUp S w d c) ∧
      runHandle (withFaults S.ops f) turn d c w =
        (handleSave d c (sessionIn S w d c) r).run (handler (withFaults S.ops f) turn) ⟨s, e⟩ := by
  obtain ⟨s₁, hlook, hinv₁, hview₁⟩ := handler_accepted turn
    (.getOrCreate d.uuid c.createArgs) h.inv h.fresh h.looks
  have hknown : (lookedUp S w d c).Knows (sessionIn S w d c).sessionId :=
    ⟨c.key, _, (session_sessionOf (S.wf h.inv) S.clock d c).1, rfl⟩
  have hledger₁ : S.view s₁ = lookedUp S w d c := hview₁
  rw [perform_getOrCreate] at hlook
  have hlook' : handler (withFaults S.ops f) turn (.store (.getOrCreate d.uuid c.createArgs)) w =
      (.ok (sessionIn S w d c), { w with store := s₁ }) := hlook
  rw [runHandle, handle, Prog.run_call_ok (R := ConvOp.Res) hlook']
  have hturn (s : σ) : (handleTurn d c (sessionIn S w d c)).run (handler (withFaults S.ops f) turn)
      { w with store := s } = (handleSave d c (sessionIn S w d c) r).run
        (handler (withFaults S.ops f) turn) ⟨s, e⟩ := by
    have hanswer : handler (withFaults S.ops f) turn (.runTurn (c.turnArgs (sessionIn S w d c)))
        { w with store := s } = (.ok r, ⟨s, e⟩) := by
      simp only [handler, h.turn]
    rw [handleTurn_runs d c (not_le.mpr h.round), Prog.run_call_ok (R := ConvOp.Res) hanswer]
  cases hmid : c.messageId with
  | none =>
    rw [handleCheck_none d hmid, hturn]
    exact ⟨s₁, ⟨hinv₁, hledger₁⟩, rfl⟩
  | some mid =>
    obtain ⟨s₂, hcheck, hinv₂, hview₂⟩ := handler_accepted turn
      (w := { w with store := s₁ }) (.isProcessed (sessionIn S w d c).sessionId mid) hinv₁
      (by rw [hledger₁]; exact hknown) (by rw [hledger₁]; exact h.checks mid hmid)
    have hnew : (lookedUp S w d c).processed (sessionIn S w d c).sessionId mid = false := by
      have hdup := h.new
      rwa [isDuplicate, hmid] at hdup
    rw [hledger₁] at hcheck
    have hcheck' : handler (withFaults S.ops f) turn
        (.store (.isProcessed (sessionIn S w d c).sessionId mid)) { w with store := s₁ } =
        (.ok false, { w with store := s₂ }) := by
      rw [← hnew]
      exact hcheck
    rw [handleCheck_some d hmid, Prog.run_call_ok (R := ConvOp.Res) hcheck',
      if_neg Bool.false_ne_true, hturn]
    exact ⟨s₂, ⟨hinv₂, hview₂.trans hledger₁⟩, rfl⟩

/-- The session of a call is in the ledger after the lookup. -/
theorem sessionIn_found (h : Completes S turn w d c r e) :
    (lookedUp S w d c).session c.key = some (sessionIn S w d c) ∧
      (sessionIn S w d c).key = c.key :=
  session_sessionOf (S.wf h.inv) S.clock d c

/-- What `save` is given was obtained from the lookup. -/
theorem allows_turned (h : Completes S turn w d c r e) :
    (lookedUp S w d c).Allows (.save (turnedSession S w d c r)) := by
  obtain ⟨hfound, hkey⟩ := sessionIn_found h
  rw [← hkey] at hfound
  exact ⟨sessionIn S w d c, hfound, rfl, rfl⟩

/-- **A completed turn whose save the store accepts is recorded**: its round, and its message. -/
theorem runHandle_saved (h : Completes S turn w d c r e)
    (ha : S.Accepts (lookedUp S w d c) (.save (turnedSession S w d c r))) :
    (runHandle S.ops turn d c w).1 = .ok r ∧
      IsLedger S (runHandle S.ops turn d c w).2.store (markMessage (sessionIn S w d c) c
        ((lookedUp S w d c).save ((turnedSession S w d c r).kept S.clock))) ∧
      (runHandle S.ops turn d c w).2.engine = e := by
  obtain ⟨s, ⟨hinv, hview⟩, hrun⟩ := runHandle_to_save h {}
  have hops : withFaults S.ops {} = S.ops := rfl
  rw [hops] at hrun
  obtain ⟨s', hsave, hinv', hview'⟩ := handler_accepted turn (w := ⟨s, e⟩)
    (.save (turnedSession S w d c r)) hinv (by rw [hview]; exact allows_turned h)
    (by rw [hview]; exact ha)
  rw [hview] at hview'
  have hleft : IsLedger S s' ((lookedUp S w d c).save ((turnedSession S w d c r).kept S.clock)) :=
    ⟨hinv', hview'⟩
  rw [hrun, handleSave, ← turnedSession, Prog.run_call_ok (R := ConvOp.Res) hsave]
  cases hmid : c.messageId with
  | none =>
    rw [handleMark_none hmid, markMessage, hmid]
    exact ⟨rfl, hleft, rfl⟩
  | some mid =>
    have hknown : (S.view s').Knows (sessionIn S w d c).sessionId := by
      rw [hview']
      exact Ledger.Knows.perform ⟨c.key, _, (sessionIn_found h).1, rfl⟩
        (.save (turnedSession S w d c r))
    obtain ⟨s'', hmark, hinv'', hview''⟩ := handler_accepted turn (w := ⟨s', e⟩)
      (.markProcessed (sessionIn S w d c).sessionId mid) hinv' hknown
      (S.accepts_message (h.checks mid hmid)).2
    rw [hview'] at hview''
    rw [handleMark_some hmid, Prog.run_call_ok (R := ConvOp.Res) hmark, markMessage, hmid]
    exact ⟨rfl, ⟨hinv'', hview''⟩, rfl⟩

/-- What was recorded of a completed turn. -/
theorem recorded_found (h : Completes S turn w d c r e) :
    let L := markMessage (sessionIn S w d c) c
      ((lookedUp S w d c).save ((turnedSession S w d c r).kept S.clock))
    (∀ k, L.session k = if k = c.key then some ((turnedSession S w d c r).kept S.clock)
      else (lookedUp S w d c).session k) ∧
      ∀ mid, c.messageId = some mid → L.processed (sessionIn S w d c).sessionId mid = true := by
  intro L
  have hkey : ((turnedSession S w d c r).kept S.clock).key = c.key := (sessionIn_found h).2
  have hsession : L.session =
      ((lookedUp S w d c).save ((turnedSession S w d c r).kept S.clock)).session := by
    show (markMessage _ _ _).session = _
    unfold markMessage
    split <;> rfl
  have hwf : (lookedUp S w d c).WF := (S.wf h.inv).perform h.fresh
  refine ⟨fun k => ?_, fun mid hmid => ?_⟩
  · rw [hsession, Ledger.save_session hwf (Ledger.allows_save_kept.mpr (allows_turned h)), hkey]
  · show (markMessage _ _ _).processed _ _ = true
    unfold markMessage
    rw [hmid]
    exact (Ledger.mark_processed ..).mpr (.inr ⟨rfl, rfl⟩)

/-- A completed turn whose save raises: the exception leaves the call, and the store is as after the
lookup. -/
theorem runHandle_unsaved (h : Completes S turn w d c r e)
    (ha : ¬ S.Accepts (lookedUp S w d c) (.save (turnedSession S w d c r))) :
    ∃ s x, IsLedger S s (lookedUp S w d c) ∧
      (S.ops.perform (.save (turnedSession S w d c r)) s).1 = .error x ∧
        runHandle S.ops turn d c w = (.error (.store x), ⟨s, e⟩) := by
  obtain ⟨s, ⟨hinv, hview⟩, hrun⟩ := runHandle_to_save h {}
  have hops : withFaults S.ops {} = S.ops := rfl
  rw [hops] at hrun
  rw [← hview] at ha
  have hallows := allows_turned h
  rw [← hview] at hallows
  obtain ⟨⟨x, hx⟩, hsame⟩ := S.refused hinv hallows ha
  refine ⟨s, x, ⟨hinv, hview⟩, hx, ?_⟩
  rw [hrun, handleSave, ← turnedSession, Prog.run_call_error (R := ConvOp.Res)
    (handler_of_error (w := ⟨s, e⟩) (.save (turnedSession S w d c r)) hx), hsame]

/-- The mark, reached after a save that returned: it takes effect unless its fault is before it, and
the call returns when it has no fault. -/
theorem runMark_failing (h : Completes S turn w d c r e) (hmid : c.messageId = some mid)
    (f : Faults) {s : σ} {L : Ledger V} (hs : IsLedger S s L)
    (hknown : L.Knows (sessionIn S w d c).sessionId) :
    let out := (handleMark c (sessionIn S w d c) r).run (handler (withFaults S.ops f) turn) ⟨s, e⟩
    (out.1 = .ok r ↔ f.mark = none) ∧
      (f.mark = some .before → IsLedger S out.2.store L) ∧
      (f.mark ≠ some .before →
        IsLedger S out.2.store (L.mark (sessionIn S w d c).sessionId mid)) := by
  intro out
  have ha : S.Accepts L (.markProcessed (sessionIn S w d c).sessionId mid) :=
    (S.accepts_message (h.checks mid hmid)).2
  have hout : out = (Prog.call (.store (.markProcessed (sessionIn S w d c).sessionId mid))
      fun _ => .ret (.ok r) : ConvProg V).run (handler (withFaults S.ops f) turn) ⟨s, e⟩ := by
    rw [← handleMark_some hmid]
  rcases failing_cases (.markProcessed (sessionIn S w d c).sessionId mid) f.mark hs hknown
    with ⟨hf, -, hans, hleft⟩ | ⟨hf, -, ⟨x, hx⟩, hleft⟩ | ⟨hno, ⟨x, hx⟩, hleft⟩
  · rw [Prog.run_call_ok (R := ConvOp.Res) (handler_of_ok (w := ⟨s, e⟩) (T := withFaults S.ops f)
      (.markProcessed (sessionIn S w d c).sessionId mid) hans), Prog.run_ret] at hout
    rw [hout, hf]
    exact ⟨⟨fun _ => rfl, fun _ => rfl⟩, nofun, fun _ => hleft⟩
  · rw [Prog.run_call_error (R := ConvOp.Res) (handler_of_error (w := ⟨s, e⟩)
      (T := withFaults S.ops f) (.markProcessed (sessionIn S w d c).sessionId mid) hx)] at hout
    rw [hout, hf]
    exact ⟨⟨nofun, nofun⟩, nofun, fun _ => hleft⟩
  · rw [Prog.run_call_error (R := ConvOp.Res) (handler_of_error (w := ⟨s, e⟩)
      (T := withFaults S.ops f) (.markProcessed (sessionIn S w d c).sessionId mid) hx)] at hout
    have hf : f.mark = some .before := by
      by_contra hne
      exact hno ⟨hne, ha⟩
    rw [hout, hf]
    exact ⟨⟨nofun, nofun⟩, fun _ => hleft, fun hne => absurd rfl hne⟩

/-- **The three ways a completed turn is left**: neither change was made, the round alone, or the
round and the mark. -/
theorem runHandle_failing (h : Completes S turn w d c r e) (hmid : c.messageId = some mid)
    (f : Faults) :
    let out := runHandle (withFaults S.ops f) turn d c w
    let L := lookedUp S w d c
    let s' := turnedSession S w d c r
    (out.1 = .ok r ↔ SaveReturns S f L s' ∧ f.mark = none) ∧
      ((¬ SaveTakesEffect S f L s' ∧ IsLedger S out.2.store L) ∨
      (SaveTakesEffect S f L s' ∧ ¬ MarkTakesEffect S f L s' ∧
        IsLedger S out.2.store (L.save (s'.kept S.clock))) ∨
      (SaveTakesEffect S f L s' ∧ MarkTakesEffect S f L s' ∧ IsLedger S out.2.store
          ((L.save (s'.kept S.clock)).mark (sessionIn S w d c).sessionId mid))) := by
  intro out L s'
  obtain ⟨s, hs, hrun⟩ := runHandle_to_save h f
  obtain ⟨hfound, hkey⟩ := sessionIn_found h
  have hsave : L.Allows (.save s') :=
    ⟨sessionIn S w d c, by rw [← hkey] at hfound; exact hfound, rfl, rfl⟩
  have hout : out = (Prog.call (.store (.save s')) fun _ =>
      handleMark c (sessionIn S w d c) r : ConvProg V).run (handler (withFaults S.ops f) turn)
        ⟨s, e⟩ := hrun
  rcases failing_cases (.save s') f.save hs hsave with ⟨hf, ha, hans, hleft⟩ | ⟨hf, ha, ⟨x, hx⟩, hleft⟩ |
    ⟨hno, ⟨x, hx⟩, hleft⟩
  · have hreturns : SaveReturns S f L s' := ⟨hf, ha⟩
    have heffect : SaveTakesEffect S f L s' := ⟨by rw [hf]; exact nofun, ha⟩
    rw [Prog.run_call_ok (R := ConvOp.Res) (handler_of_ok (w := ⟨s, e⟩) (T := withFaults S.ops f)
      (.save s') hans)] at hout
    obtain ⟨hok, hbefore, hafter⟩ := runMark_failing h hmid f hleft
      (Ledger.Knows.perform ⟨c.key, _, hfound, rfl⟩ (.save s'))
    rw [hout]
    refine ⟨hok.trans ⟨fun hm => ⟨hreturns, hm⟩, fun hm => hm.2⟩, .inr ?_⟩
    by_cases hm : f.mark = some .before
    · exact .inl ⟨heffect, fun hmark => hmark.2 hm, hbefore hm⟩
    · exact .inr ⟨heffect, ⟨hreturns, hm⟩, hafter hm⟩
  · rw [Prog.run_call_error (R := ConvOp.Res) (handler_of_error (w := ⟨s, e⟩)
      (T := withFaults S.ops f) (.save s') hx)] at hout
    have hnot : ¬ SaveReturns S f L s' := by
      rintro ⟨hnone, -⟩
      rw [hf] at hnone
      cases hnone
    rw [hout]
    exact ⟨⟨nofun, fun hr => absurd hr.1 hnot⟩,
      .inr (.inl ⟨⟨by rw [hf]; exact nofun, ha⟩, fun hm => hnot hm.1, hleft⟩)⟩
  · rw [Prog.run_call_error (R := ConvOp.Res) (handler_of_error (w := ⟨s, e⟩)
      (T := withFaults S.ops f) (.save s') hx)] at hout
    rw [hout]
    refine ⟨⟨nofun, fun hr => absurd ?_ hno⟩, .inl ⟨hno, hleft⟩⟩
    obtain ⟨⟨hnone, ha⟩, -⟩ := hr
    exact ⟨by rw [hnone]; exact nofun, ha⟩

/-- What a call with message `mid` on the session `s` finds recorded in a ledger. -/
structure Left (L : Ledger V) (c : Call V) (s : Session V) (mid : String) (marked : Prop) :
    Prop where
  session : L.session c.key = some s
  processed : L.processed s.sessionId mid = true ↔ marked
  retried : ∀ d, sessionOf L d c = s ∧ (isDuplicate L s c = true ↔ marked)

theorem Left.of_ledger {L : Ledger V} {s : Session V} {marked : Prop}
    (hmid : c.messageId = some mid) (hs : L.session c.key = some s)
    (hp : L.processed s.sessionId mid = true ↔ marked) : Left L c s mid marked where
  session := hs
  processed := hp
  retried d := by
    refine ⟨by rw [sessionOf, hs]; rfl, ?_⟩
    rw [isDuplicate, hmid]
    exact hp

/-- **What a completed turn leaves on a store that fails.** For every lawful store, every state of
it, every call with a message whose turn succeeds and every fault of the two operations after it:
the call returns exactly when neither failed; a save that took effect leaves the session with the
round and the turn's handle, and otherwise the session is as the turn found it; the message is
marked exactly when the save returned and the mark took effect, and is then the duplicate a retry
is refused for; and nothing else changes. -/
theorem turn_left_on_failing_store (S : LawfulStore V σ) (turn : TurnFn V ε) (w : World σ ε)
    (d : Draws) (c : Call V) (r : AgentRunResult V) (e : ε) (mid : String) (f : Faults)
    (h : Completes S turn w d c r e) (hmid : c.messageId = some mid) :
    let out := runHandle (withFaults S.ops f) turn d c w
    let L := S.view out.2.store
    let s := sessionIn S w d c
    let s' := turnedSession S w d c r
    S.Inv out.2.store ∧
      (out.1 = .ok r ↔ SaveReturns S f (lookedUp S w d c) s' ∧ f.mark = none) ∧
      (SaveTakesEffect S f (lookedUp S w d c) s' →
        Left L c (s'.kept S.clock) mid (MarkTakesEffect S f (lookedUp S w d c) s')) ∧
      (¬ SaveTakesEffect S f (lookedUp S w d c) s' → Left L c s mid False) ∧
      (∀ k, k ≠ c.key → L.session k = (S.view w.store).session k) ∧
      ∀ x y, ¬ (x = s.sessionId ∧ y = mid) →
        L.processed x y = (S.view w.store).processed x y := by
  intro out L s s'
  obtain ⟨hfound, hkey⟩ := sessionIn_found h
  have hwf : (lookedUp S w d c).WF := (S.wf h.inv).perform h.fresh
  have hallows : (lookedUp S w d c).Allows (.save (s'.kept S.clock)) :=
    ⟨s, by rw [← hkey] at hfound; exact hfound, rfl, rfl⟩
  have hnew : (lookedUp S w d c).processed s.sessionId mid = false := by
    have hdup := h.new
    rwa [isDuplicate, hmid] at hdup
  have hother : ∀ k, k ≠ c.key →
      (lookedUp S w d c).session k = (S.view w.store).session k := by
    intro k hk
    simp only [lookedUp, Ledger.perform]
    split
    · rfl
    · rw [Ledger.create_session]
      exact if_neg hk
  have hprocessed : (lookedUp S w d c).processed = (S.view w.store).processed := by
    simp only [lookedUp, Ledger.perform]
    split <;> rfl
  have hsession : ∀ k, ((lookedUp S w d c).save (s'.kept S.clock)).session k =
      if k = c.key then some (s'.kept S.clock) else (lookedUp S w d c).session k := by
    intro k
    rw [Ledger.save_session hwf hallows, Session.kept_key, ← hkey]
    rfl
  obtain ⟨hok, hleft⟩ := runHandle_failing h hmid f
  have hinv : S.Inv out.2.store := by
    rcases hleft with ⟨-, hl⟩ | ⟨-, -, hl⟩ | ⟨-, -, hl⟩ <;> exact hl.1
  refine ⟨hinv, hok, ?_⟩
  rcases hleft with ⟨hsave, -, hview⟩ | ⟨hsave, hmark, -, hview⟩ | ⟨hsave, hmark, -, hview⟩
  · have hL : L = lookedUp S w d c := hview
    rw [hL]
    refine ⟨fun hs => absurd hs hsave, fun _ => .of_ledger hmid hfound ?_, hother,
      fun x y _ => ?_⟩
    · rw [hnew]
      exact ⟨nofun, nofun⟩
    · rw [hprocessed]
  · have hL : L = (lookedUp S w d c).save (s'.kept S.clock) := hview
    rw [hL]
    refine ⟨fun _ => .of_ledger hmid ?_ ?_, fun hs => absurd hsave hs, fun k hk => ?_,
      fun x y _ => ?_⟩
    · rw [hsession, if_pos rfl]
    · have hunmarked : (lookedUp S w d c).processed (s'.kept S.clock).sessionId mid = false := hnew
      rw [Ledger.save_processed, hunmarked]
      exact ⟨nofun, fun hm => absurd hm hmark⟩
    · rw [hsession, if_neg hk, hother k hk]
    · rw [Ledger.save_processed, hprocessed]
  · have hL : L = ((lookedUp S w d c).save (s'.kept S.clock)).mark s.sessionId mid := hview
    rw [hL]
    refine ⟨fun _ => .of_ledger hmid ?_ ?_, fun hs => absurd hsave hs, fun k hk => ?_,
      fun x y hxy => ?_⟩
    · rw [Ledger.mark_session, hsession, if_pos rfl]
    · rw [Ledger.mark_processed]
      exact ⟨fun _ => hmark, fun _ => .inr ⟨rfl, rfl⟩⟩
    · rw [Ledger.mark_session, hsession, if_neg hk, hother k hk]
    · rw [Bool.eq_iff_iff, Ledger.mark_processed, Ledger.save_processed, hprocessed]
      exact ⟨fun hp => hp.resolve_right hxy, .inl⟩

end Recording

/-- One delivery on a fresh memory store with the given faults. -/
def faultyDelivery (f : Faults) : Except (Raised String) (AgentRunResult String) ×
    World (MemoryStore String) (EngineState String Unit Unit) :=
  runHandle (withFaults (memoryLawful String).ops f) (engineTurn echoEngine) (twoDraws true)
    (delivery "m1") freshWorld

/-- The delivery's turn succeeds. -/
theorem delivery_completes : ∃ r e, Completes (memoryLawful String) (engineTurn echoEngine)
    freshWorld (twoDraws true) (delivery "m1") r e :=
  ⟨_, _, twoDraws_start.inv, twoDraws_start.fresh true, trivial, fun _ _ => trivial, rfl,
    by decide, rfl⟩

/-- A delivery whose mark raises after its effect is a duplicate when it is retried. -/
theorem turn_left_on_failing_store_marked :
    let L := (memoryLawful String).view (faultyDelivery { mark := some .after }).2.store
    ∃ s, L.session (delivery "m1").key = some s ∧ ∀ d, sessionOf L d (delivery "m1") = s ∧
      isDuplicate L s (delivery "m1") = true := by
  intro L
  obtain ⟨r, e, hcomplete⟩ := delivery_completes
  obtain ⟨-, -, hleft, -⟩ := turn_left_on_failing_store (memoryLawful String)
    (engineTurn echoEngine) freshWorld (twoDraws true) (delivery "m1") r e "m1"
    { mark := some .after } hcomplete rfl
  have hl := hleft ⟨nofun, trivial⟩
  exact ⟨_, hl.session, fun d =>
    ⟨(hl.retried d).1, (hl.retried d).2.mpr ⟨⟨rfl, trivial⟩, nofun⟩⟩⟩

/-- A delivery whose mark raises before its effect leaves its round without its mark; its retry
returns and counts the message a second time. -/
theorem retry_counts_twice :
    let f : Faults := { mark := some .before }
    let retried := runHandle (memoryLawful String).ops (engineTurn echoEngine) (twoDraws false)
      (delivery "m1") (faultyDelivery f).2
    (∃ x, (faultyDelivery f).1 = .error x) ∧
      ((faultyDelivery f).2.store.ledger.session (delivery "m1").key).map
        (fun s => (s.sessionId, s.roundCount)) = some ("s1", 1) ∧
      (faultyDelivery f).2.store.ledger.processed "s1" "m1" = false ∧
      (∃ r, retried.1 = .ok r) ∧
      (retried.2.store.ledger.session (delivery "m1").key).map
        (fun s => (s.sessionId, s.roundCount)) = some ("s1", 2) :=
  ⟨⟨_, rfl⟩, rfl, rfl, ⟨_, rfl⟩, rfl⟩

end ClawEngine.Orchestration
