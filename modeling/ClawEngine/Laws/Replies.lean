import ClawEngine.Channels.Runner
import ClawEngine.Laws.Mediation
import ClawEngine.Laws.Recording

/-!
# Marked messages and their replies

`handle_raw` marks a message inside the conversation and sends the reply after it. A message that
is marked is refused when it comes again, so it had better been answered by then. Whether it was is
followed over any sequence of deliveries on a lawful store, whatever of the store, the turn and the
channel raises in each, before its effect or after it.
-/

set_option autoImplicit false

namespace ClawEngine.Channels

open ClawEngine.Core ClawEngine.Core.Act ClawEngine.Orchestration ClawEngine.Persistence
  ClawEngine.Runtime

variable {V σ ε : Type}

/-! ## Outages -/

/-- When the calls of a delivery raise, those of the store and the one that sends the reply. -/
structure Outages where
  lookup : Option FaultPoint := none
  check : Option FaultPoint := none
  save : Option FaultPoint := none
  mark : Option FaultPoint := none
  send : Option FaultPoint := none

/-- The outage of an operation of the store. -/
def Outages.at (f : Outages) : StoreOp V → Option FaultPoint
  | .getOrCreate _ _ => f.lookup
  | .isProcessed _ _ => f.check
  | .save _ => f.save
  | .markProcessed _ _ => f.mark

/-- A store whose operations raise as `f` says. -/
def withOutages (S : SessionStore V σ) (f : Outages) : SessionStore V σ where
  getOrCreate uuid a := failing f.lookup (S.getOrCreate uuid a)
  save session := failing f.save (S.save session)
  isProcessed sid mid := failing f.check (S.isProcessed sid mid)
  markProcessed sid mid := failing f.mark (S.markProcessed sid mid)

theorem withOutages_perform (S : SessionStore V σ) (f : Outages) (op : StoreOp V) (s : σ) :
    (withOutages S f).perform op s = failing (f.at op) (S.perform op) s := by
  cases op <;> rfl

/-- `send_text` of a channel that raises so. -/
def sendFailing (fault : Option FaultPoint) (target : ReplyTarget) (text : V) :
    RunnerAct V σ ε Unit := fun w =>
  match fault with
  | none => ChannelRunner.sendText target text w
  | some .before => (.error (.send "ConnectionError" "channel down"), w)
  | some .after => (.error (.send "ConnectionError" "no answer"),
      (ChannelRunner.sendText target text w).2)

/-- A delivery loses its reply: the channel raises before the text is out, or the store after the
message was marked, so that no text is sent. -/
def Outages.Loses (f : Outages) : Prop := f.send = some .before ∨ f.mark = some .after

/-! ## The conversation of a delivery -/

/-- The ledger grew by what a conversation does before it marks its message: it forgot no session,
and any new one has the drawn id. -/
structure Grew (uuid : String) (L L' : Ledger V) : Prop where
  kept : ∀ {k s}, L.session k = some s → ∃ s', L'.session k = some s' ∧ s'.sessionId = s.sessionId
  knows : ∀ {sid}, L'.Knows sid → L.Knows sid ∨ sid = uuid
  processed : L'.processed = L.processed

theorem Grew.refl (uuid : String) (L : Ledger V) : Grew uuid L L :=
  ⟨fun h => ⟨_, h, rfl⟩, .inl, rfl⟩

theorem Grew.trans {uuid : String} {L L' L'' : Ledger V} (h : Grew uuid L L')
    (h' : Grew uuid L' L'') : Grew uuid L L'' where
  kept hs := by
    obtain ⟨s', hs', hid⟩ := h.kept hs
    obtain ⟨s'', hs'', hid'⟩ := h'.kept hs'
    exact ⟨s'', hs'', hid'.trans hid⟩
  knows hk := (h'.knows hk).elim h.knows .inr
  processed := h'.processed.trans h.processed

/-- An operation that is neither a mark nor a lookup with another id. -/
def Grows (uuid : String) : StoreOp V → Prop
  | .getOrCreate id _ => id = uuid
  | .markProcessed _ _ => False
  | _ => True

theorem Grew.perform {uuid : String} (op : StoreOp V) (h : Grows uuid op)
    (clock : PyFloat → PyFloat) (L : Ledger V) : Grew uuid L (L.perform clock op).2 where
  kept hs := by
    obtain ⟨s', hs', hid, _⟩ := Ledger.perform_session_of_some hs op
    exact ⟨s', hs', hid⟩
  knows hk := by
    obtain hk | ⟨a, rfl⟩ := Ledger.knows_perform hk
    · exact .inl hk
    · exact .inr h
  processed := by
    cases op with
    | getOrCreate id a =>
      simp only [Ledger.perform]
      split <;> rfl
    | save s => rfl
    | isProcessed sid mid => rfl
    | markProcessed sid mid => exact h.elim

/-- What a conversation leaves: a ledger that grew, and at most its own message marked, in the
session of its key, when it returned or its mark raised after its effect. -/
def Converses (S : LawfulStore V σ) (f : Outages) (uuid : String) (k : Key)
    (messageId : Option String) (L : Ledger V)
    (out : Except (Raised V) (AgentRunResult V) × World σ ε) : Prop :=
  ∃ L', Grew uuid L L' ∧
    (IsLedger S out.2.store L' ∨
      ∃ s mid, messageId = some mid ∧ L'.session k = some s ∧
        IsLedger S out.2.store (L'.mark s.sessionId mid) ∧
        ((∃ r, out.1 = .ok r) ∨ f.mark = some .after))

section Conversation

variable {S : LawfulStore V σ} {f : Outages} {turn : TurnFn V ε} {w : World σ ε} {d : Draws}
variable {c : Call V} {L : Ledger V} {s : Session V}

/-- A store's call with an outage: it raises, before or after its effect, or returns. -/
theorem failing_call (op : StoreOp V) {k : op.Res → ConvProg V} (h : IsLedger S w.store L)
    (hop : L.Allows op)
    {P : Except (Raised V) (AgentRunResult V) × World σ ε → Prop}
    (hbefore : ∀ x s', IsLedger S s' L → P (.error x, { w with store := s' }))
    (hafter : ∀ x s', f.at op = some .after → IsLedger S s' (L.perform S.clock op).2 →
      P (.error x, { w with store := s' }))
    (hok : ∀ s', IsLedger S s' (L.perform S.clock op).2 →
      P ((k (L.perform S.clock op).1).run (handler (withOutages S.ops f) turn)
        { w with store := s' })) :
    P ((Prog.call (.store op) k : ConvProg V).run (handler (withOutages S.ops f) turn) w) := by
  obtain ⟨_, _, hans, hleft⟩ | ⟨hf, _, ⟨x, hx⟩, hleft⟩ | ⟨_, ⟨x, hx⟩, hleft⟩ :=
    failing_cases op (f.at op) h hop
  all_goals rw [← withOutages_perform] at hleft
  · rw [← withOutages_perform] at hans
    rw [Prog.run_call_ok (R := ConvOp.Res) (handler_of_ok op hans)]
    exact hok _ hleft
  · rw [← withOutages_perform] at hx
    rw [Prog.run_call_error (R := ConvOp.Res) (handler_of_error op hx)]
    exact hafter _ _ hf hleft
  · rw [← withOutages_perform] at hx
    rw [Prog.run_call_error (R := ConvOp.Res) (handler_of_error op hx)]
    exact hbefore _ _ hleft

theorem Converses.stopped {uuid : String} {k : Key} {messageId : Option String} {L' : Ledger V}
    (hgrew : Grew uuid L L') {out : Except (Raised V) (AgentRunResult V) × World σ ε}
    (h : IsLedger S out.2.store L') : Converses S f uuid k messageId L out := ⟨L', hgrew, .inl h⟩

theorem handleMark_converses {r : AgentRunResult V} {L' : Ledger V} (hgrew : Grew d.uuid L L')
    (h : IsLedger S w.store L') {s' : Session V} (hs : L'.session c.key = some s')
    (hid : s'.sessionId = s.sessionId) :
    Converses S f d.uuid c.key c.messageId L
      ((handleMark c s r).run (handler (withOutages S.ops f) turn) w) := by
  cases hmid : c.messageId with
  | none =>
    rw [handleMark_none hmid]
    exact .stopped hgrew h
  | some mid =>
    rw [handleMark_some hmid, ← hid]
    refine failing_call (.markProcessed s'.sessionId mid) h ⟨c.key, s', hs, rfl⟩
      (fun x t h' => .stopped hgrew h') ?_ ?_
    · intro x t hf h'
      exact ⟨L', hgrew, .inr ⟨s', mid, rfl, hs, h', .inr hf⟩⟩
    · intro t h'
      exact ⟨L', hgrew, .inr ⟨s', mid, rfl, hs, h', .inl ⟨r, rfl⟩⟩⟩

theorem handleTurn_converses {L' : Ledger V} (hgrew : Grew d.uuid L L')
    (h : IsLedger S w.store L') (hs : L'.session c.key = some s) (hkey : s.key = c.key) :
    Converses S f d.uuid c.key c.messageId L
      ((handleTurn d c s).run (handler (withOutages S.ops f) turn) w) := by
  by_cases hrounds : s.roundCount ≥ s.maxRounds
  · rw [handleTurn_exceeded d c hrounds]
    exact .stopped hgrew h
  · rw [handleTurn_runs d c hrounds]
    rcases hturn : turn (c.turnArgs s) w.engine with ⟨answer, e⟩
    have hanswer : handler (withOutages S.ops f) turn (.runTurn (c.turnArgs s)) w =
        (answer, { w with engine := e }) := by
      simp only [handler, hturn]
    cases answer with
    | error x =>
      rw [Prog.run_call_error (R := ConvOp.Res) hanswer]
      exact .stopped hgrew h
    | ok r =>
      rw [Prog.run_call_ok (R := ConvOp.Res) hanswer, handleSave]
      have hsaved : Grew d.uuid L
          (L'.perform S.clock (.save (s.withTurn r.backendThreadId d.now))).2 :=
        hgrew.trans (.perform (.save _) trivial S.clock L')
      refine failing_call (w := ⟨w.store, e⟩) (.save (s.withTurn r.backendThreadId d.now)) h
        ⟨s, by rw [← hkey] at hs; exact hs, rfl, rfl⟩
        (fun x t h' => .stopped hgrew h') (fun x t _ h' => .stopped hsaved h') ?_
      intro t h'
      obtain ⟨s', hs', hid, _⟩ := Ledger.perform_session_of_some hs
        (.save (s.withTurn r.backendThreadId d.now))
      exact handleMark_converses hsaved h' hs' hid

theorem handleCheck_converses {L' : Ledger V} (hgrew : Grew d.uuid L L')
    (h : IsLedger S w.store L') (hs : L'.session c.key = some s) (hkey : s.key = c.key) :
    Converses S f d.uuid c.key c.messageId L
      ((handleCheck d c s).run (handler (withOutages S.ops f) turn) w) := by
  cases hmid : c.messageId with
  | none =>
    rw [handleCheck_none d hmid, ← hmid]
    exact handleTurn_converses hgrew h hs hkey
  | some mid =>
    rw [handleCheck_some d hmid, ← hmid]
    refine failing_call (.isProcessed s.sessionId mid) h ⟨c.key, s, hs, rfl⟩
      (fun x s' h' => .stopped hgrew h') (fun x s' _ h' => .stopped hgrew h') ?_
    intro t h'
    cases hdup : (L'.perform S.clock (.isProcessed s.sessionId mid)).1 with
    | true => exact .stopped hgrew h'
    | false => exact handleTurn_converses (w := { w with store := t }) hgrew h' hs hkey

/-- **What a conversation leaves on a store that fails.** -/
theorem handle_converses (h : IsLedger S w.store L) (hfresh : ¬ L.Knows d.uuid) :
    Converses S f d.uuid c.key c.messageId L
      ((handle d c).run (handler (withOutages S.ops f) turn) w) := by
  have hwf : L.WF := h.2 ▸ S.wf h.1
  have hgrew : Grew d.uuid L (L.perform S.clock (.getOrCreate d.uuid c.createArgs)).2 :=
    .perform (.getOrCreate _ _) rfl S.clock L
  refine failing_call (.getOrCreate d.uuid c.createArgs) h hfresh
    (fun x s' h' => .stopped (.refl _ _) h') (fun x s' _ h' => .stopped hgrew h') ?_
  intro s' h'
  rw [perform_getOrCreate]
  obtain ⟨hfound, hkey⟩ := session_sessionOf hwf S.clock d c
  exact handleCheck_converses hgrew h' hfound hkey

theorem gatewayHandleJson_converses (f : Outages) (turn : TurnFn V ε)
    (resolver : Context.WorkspaceResolver) (g : GatewayCall)
    (messageId : Json) (h : IsLedger S w.store L) (hfresh : ¬ L.Knows d.uuid) :
    Converses S f d.uuid ⟨g.workspaceId, g.channel, g.externalThreadKey⟩
      (messageKey messageId).toOption.join L
      ((gatewayHandleJson resolver d g messageId).run (handler (withOutages S.ops f) turn) w) := by
  unfold gatewayHandleJson
  cases hkey : messageKey messageId with
  | error e =>
    simp only [gatewayHandleUnhashable]
    cases resolver.resolve g.workspaceId g.userId with
    | error e => exact .stopped (.refl _ _) h
    | ok ws =>
      have hgrew : Grew d.uuid L (L.perform S.clock
          (.getOrCreate d.uuid (g.inWorkspace (V := V) ws).createArgs)).2 :=
        .perform (.getOrCreate _ _) rfl S.clock L
      exact failing_call (.getOrCreate d.uuid (g.inWorkspace (V := V) ws).createArgs) h hfresh
        (fun x t h' => .stopped (.refl _ _) h') (fun x t _ h' => .stopped hgrew h')
        (fun t h' => .stopped hgrew h')
  | ok mid =>
    simp only [gatewayHandle]
    cases resolver.resolve g.workspaceId g.userId with
    | error e => exact .stopped (.refl _ _) h
    | ok ws =>
      exact handle_converses (c := { g with messageId := mid }.inWorkspace ws) h hfresh

end Conversation

/-! ## Deliveries -/

/-- A text handed to `handle_raw`: by which runner, what its calls draw, and what raises in it. -/
structure Delivery where
  runner : ChannelRunner
  raw : String
  headers : Dict String String
  draws : Draws
  outages : Outages := {}

/-- A reply sent, and the result returned after it. -/
theorem sendFailing_result (fault : Option FaultPoint) (target : ReplyTarget)
    (result : AgentRunResult V) (w : RunnerWorld V σ ε) :
    let out := (sendFailing fault target result.finalText >>= fun _ => pure result :
      RunnerAct V σ ε _) w
    out.2.conversation = w.conversation ∧
      (fault ≠ some .before → out.2.sentTexts = w.sentTexts ++ [(target, result.finalText)]) := by
  match fault with
  | none => exact ⟨rfl, fun _ => rfl⟩
  | some .before => exact ⟨rfl, fun h => absurd rfl h⟩
  | some .after => exact ⟨rfl, fun _ => rfl⟩

theorem messageKey_of_join {x : Except PyError (Option String)} {mid : String}
    (h : x.toOption.join = some mid) : x = .ok (some mid) := by
  cases x with
  | error e => cases h
  | ok key =>
    cases key with
    | none => cases h
    | some key => exact congrArg _ h

section Routed

variable (verify : (raw : String) → (headers : Dict String String) → Except (ChannelError V) Unit)
variable (parse : (raw : String) → Except (ChannelError V) IncomingMessage)
variable (send : ReplyTarget → V → RunnerAct V σ ε Unit)

/-- A text is stopped before the conversation, and nothing happens; or its message is handled, and
the reply is sent when the conversation returned. -/
theorem handleRawOver_cases (router : WorkspaceRouter V) (R : ChannelRunner)
    (S : SessionStore V σ) (turn : TurnFn V ε) (d : Draws) (raw : String)
    (headers : Dict String String) (w : RunnerWorld V σ ε) :
    (∃ e, ChannelRunner.handleRawOver ⟨verify, parse, send⟩ router R S turn d raw headers w =
        (.error e, w)) ∨
      ∃ msg decision, parse raw = .ok msg ∧ router msg = .ok decision ∧
        ChannelRunner.handleRawOver ⟨verify, parse, send⟩ router R S turn d raw headers w =
          (R.converse S turn d msg decision >>= fun result =>
            send msg.replyTarget result.finalText >>= fun _ => pure result) w := by
  simp only [ChannelRunner.handleRawOver]
  cases verify raw headers with
  | error e => exact .inl ⟨e, rfl⟩
  | ok u =>
    cases parse raw with
    | error e => exact .inl ⟨e, rfl⟩
    | ok msg =>
      cases hrouted : router msg with
      | error e =>
        refine .inl ⟨e, ?_⟩
        rw [readE_ok_bind, readE_ok_bind, hrouted]
        rfl
      | ok decision =>
        refine .inr ⟨msg, decision, rfl, hrouted, ?_⟩
        rw [readE_ok_bind, readE_ok_bind, hrouted]
        rfl

end Routed

section Deliveries

variable (verify : (raw : String) → (headers : Dict String String) → Except (ChannelError V) Unit)
variable (parse : (raw : String) → Except (ChannelError V) IncomingMessage)
variable (router : WorkspaceRouter V) (S : LawfulStore V σ) (turn : TurnFn V ε)

/-- `handle_raw` of a delivery. -/
def Delivery.handleRaw (x : Delivery) : RunnerAct V σ ε (AgentRunResult V) :=
  ChannelRunner.handleRawOver ⟨verify, parse, sendFailing x.outages.send⟩ router x.runner
    (withOutages S.ops x.outages) turn x.draws x.raw x.headers

/-- The delivery carries the message `mid` on the key `k`. -/
def Delivery.Carries (x : Delivery) (k : Key) (mid : String) : Prop :=
  ∃ msg decision, parse x.raw = .ok msg ∧ router msg = .ok decision ∧
    k = ⟨decision.workspaceId, msg.channel, msg.externalThreadKey⟩ ∧
    messageKey msg.messageId = .ok (some mid)

/-- The delivery sends its reply. -/
def Delivery.Replies (x : Delivery) (w : RunnerWorld V σ ε) : Prop :=
  ∃ msg text, parse x.raw = .ok msg ∧
    (x.handleRaw verify parse router S turn w).2.sentTexts =
      w.sentTexts ++ [(msg.replyTarget, text)]

/-- What deliveries leave, one after the other. -/
def deliverAll (xs : List Delivery) (w : RunnerWorld V σ ε) : RunnerWorld V σ ε :=
  xs.foldl (fun w x => (x.handleRaw verify parse router S turn w).2) w

/-- One of the deliveries carried the message and sent its reply. -/
def Answered (xs : List Delivery) (w : RunnerWorld V σ ε) (k : Key) (mid : String) : Prop :=
  ∃ earlier x later, xs = earlier ++ x :: later ∧ x.Carries parse router k mid ∧
    x.Replies verify parse router S turn (deliverAll verify parse router S turn earlier w)

variable {w : RunnerWorld V σ ε} {L : Ledger V}

/-- **One delivery**: it marks at most the message it carries, and a message it marks it answers or
loses. -/
theorem Delivery.handleRaw_marks (x : Delivery) (h : IsLedger S w.conversation.store L)
    (hfresh : ¬ L.Knows x.draws.uuid) :
    ∃ L', Grew x.draws.uuid L L' ∧
      let out := x.handleRaw verify parse router S turn w
      (IsLedger S out.2.conversation.store L' ∨
        ∃ k s mid, x.Carries parse router k mid ∧ L'.session k = some s ∧
          IsLedger S out.2.conversation.store (L'.mark s.sessionId mid) ∧
          (x.Replies verify parse router S turn w ∨ x.outages.Loses)) := by
  obtain ⟨e, hout⟩ | ⟨msg, decision, hparsed, hrouted, hout⟩ :=
    handleRawOver_cases verify parse (sendFailing x.outages.send) router x.runner
      (withOutages S.ops x.outages) turn x.draws x.raw x.headers w
  · refine ⟨L, .refl _ _, .inl ?_⟩
    rw [Delivery.handleRaw, hout]
    exact h
  have hconverses := gatewayHandleJson_converses x.outages turn x.runner.resolver
    (x.runner.gatewayCall msg decision) msg.messageId h hfresh
  rcases hrun : (gatewayHandleJson x.runner.resolver x.draws (x.runner.gatewayCall msg decision)
    msg.messageId).run (handler (withOutages S.ops x.outages) turn) w.conversation
    with ⟨answer, conversation⟩
  rw [hrun] at hconverses
  obtain ⟨L', hgrew, hleft⟩ := hconverses
  refine ⟨L', hgrew, ?_⟩
  have hcarries : ∀ {mid : String},
      (messageKey msg.messageId).toOption.join = some mid →
      x.Carries parse router ⟨decision.workspaceId, msg.channel, msg.externalThreadKey⟩ mid :=
    fun hmid => ⟨msg, decision, hparsed, hrouted, rfl, messageKey_of_join hmid⟩
  cases answer with
  | error e =>
    have hconverse : x.runner.converse (withOutages S.ops x.outages) turn x.draws msg decision w =
        (.error (.conversation e), { w with conversation }) := by
      simp only [ChannelRunner.converse, hrun]
      rfl
    rw [bind_of_error hconverse] at hout
    rw [Delivery.handleRaw, hout]
    obtain hleft | ⟨s, mid, hmid, hs, hmarked, ⟨r, hr⟩ | hmark⟩ := hleft
    · exact .inl hleft
    · cases hr
    · exact .inr ⟨_, s, mid, hcarries hmid, hs, hmarked, .inr (.inr hmark)⟩
  | ok result =>
    have hconverse : x.runner.converse (withOutages S.ops x.outages) turn x.draws msg decision w =
        (.ok result, { w with conversation }) := by
      simp only [ChannelRunner.converse, hrun]
      rfl
    rw [bind_of_ok hconverse] at hout
    obtain ⟨hsame, hsent⟩ := sendFailing_result x.outages.send msg.replyTarget result
      { w with conversation }
    obtain hleft | ⟨s, mid, hmid, hs, hmarked, _⟩ := hleft
    · left
      rw [Delivery.handleRaw, hout, hsame]
      exact hleft
    · right
      refine ⟨_, s, mid, hcarries hmid, hs, by rw [Delivery.handleRaw, hout, hsame]; exact hmarked,
        ?_⟩
      by_cases hlost : x.outages.send = some .before
      · exact .inr (.inl hlost)
      · refine .inl ⟨msg, result.finalText, hparsed, ?_⟩
        rw [Delivery.handleRaw, hout]
        exact hsent hlost

variable {verify parse router S turn}

/-- The marked messages of a ledger are messages of its sessions, and answered. -/
def MarksAnswered (L : Ledger V) (answered : Key → String → Prop) : Prop :=
  ∀ sid mid, L.processed sid mid = true →
    ∃ k s, L.session k = some s ∧ s.sessionId = sid ∧ answered k mid

theorem MarksAnswered.grew {uuid : String} {L L' : Ledger V} {answered answered' : Key → String → Prop}
    (h : MarksAnswered L answered) (hgrew : Grew uuid L L')
    (hmono : ∀ {k mid}, answered k mid → answered' k mid) : MarksAnswered L' answered' := by
  intro sid mid hmarked
  rw [hgrew.processed] at hmarked
  obtain ⟨k, s, hs, hid, hanswered⟩ := h sid mid hmarked
  obtain ⟨s', hs', hid'⟩ := hgrew.kept hs
  exact ⟨k, s', hs', hid'.trans hid, hmono hanswered⟩

theorem MarksAnswered.mark {L : Ledger V} {answered : Key → String → Prop}
    (h : MarksAnswered L answered) {k : Key} {s : Session V} {mid : String}
    (hs : L.session k = some s) (hanswered : answered k mid) :
    MarksAnswered (L.mark s.sessionId mid) answered := by
  intro x y hmarked
  obtain hold | ⟨rfl, rfl⟩ := (Ledger.mark_processed ..).mp hmarked
  · exact h x y hold
  · exact ⟨k, s, hs, rfl, hanswered⟩

/-- Where all marked messages are answered, a message that is not is new to the session it is on. -/
theorem MarksAnswered.new {L : Ledger V} (hwf : L.WF) {answered : Key → String → Prop}
    (h : MarksAnswered L answered) {d : Draws} (hfresh : ¬ L.Knows d.uuid) {c : Call V}
    {mid : String} (hmid : c.messageId = some mid) (hnot : ¬ answered c.key mid) :
    isDuplicate L (sessionOf L d c) c = false := by
  rw [isDuplicate, hmid, Option.any_some, Bool.eq_false_iff]
  intro hmarked
  obtain ⟨k, s, hs, hid, hanswered⟩ := h _ _ hmarked
  cases hfound : L.session c.key with
  | none =>
    rw [sessionOf, hfound] at hid
    exact hfresh ⟨k, s, hs, hid⟩
  | some s' =>
    rw [sessionOf, hfound] at hid
    obtain rfl := hwf.id_inj hs hfound hid
    exact hnot hanswered

theorem deliverAll_snoc (xs : List Delivery) (x : Delivery) :
    deliverAll verify parse router S turn (xs ++ [x]) w =
      (x.handleRaw verify parse router S turn
        (deliverAll verify parse router S turn xs w)).2 := by
  simp only [deliverAll, List.foldl_append, List.foldl_cons, List.foldl_nil]

theorem Answered.snoc {xs : List Delivery} {k : Key} {mid : String} (x : Delivery)
    (h : Answered verify parse router S turn xs w k mid) :
    Answered verify parse router S turn (xs ++ [x]) w k mid := by
  obtain ⟨earlier, y, later, rfl, hcarries, hreplies⟩ := h
  exact ⟨earlier, y, later ++ [x], by simp, hcarries, hreplies⟩

/-- The states deliveries reach: the store keeps a ledger, which knows the ids it had and drawn ones
and whose marked messages are answered. -/
structure Accounted (xs : List Delivery) (L₀ L : Ledger V) (answered : Key → String → Prop) :
    Prop where
  knows : ∀ {sid}, L.Knows sid → L₀.Knows sid ∨ sid ∈ xs.map (·.draws.uuid)
  marks : MarksAnswered L answered

theorem deliverAll_accounted {xs : List Delivery} (h : IsLedger S w.conversation.store L)
    (hnone : ∀ sid mid, L.processed sid mid = false)
    (hnodup : (xs.map (·.draws.uuid)).Nodup) (hfresh : ∀ x ∈ xs, ¬ L.Knows x.draws.uuid)
    (hkeeps : ∀ x ∈ xs, ¬ x.outages.Loses) :
    ∃ L', IsLedger S (deliverAll verify parse router S turn xs w).conversation.store L' ∧
      Accounted xs L L' (Answered verify parse router S turn xs w) := by
  induction xs using List.reverseRecOn with
  | nil =>
    refine ⟨L, h, .inl, ?_⟩
    intro sid mid hmarked
    rw [hnone] at hmarked
    cases hmarked
  | append_singleton xs x ih =>
    rw [List.map_append, List.nodup_append] at hnodup
    obtain ⟨L₁, hL₁, hacc⟩ := ih hnodup.1 (fun y hy => hfresh y (List.mem_append_left _ hy))
      (fun y hy => hkeeps y (List.mem_append_left _ hy))
    have hx : ¬ L₁.Knows x.draws.uuid := by
      intro hknows
      obtain hold | hdrawn := hacc.knows hknows
      · exact hfresh x (by simp) hold
      · exact hnodup.2.2 _ hdrawn _ (by simp) rfl
    rw [deliverAll_snoc]
    obtain ⟨L₂, hgrew, hleft⟩ := x.handleRaw_marks verify parse router S turn hL₁ hx
    have hknows : ∀ {sid}, L₂.Knows sid →
        L.Knows sid ∨ sid ∈ (xs ++ [x]).map (·.draws.uuid) := by
      intro sid hsid
      rw [List.map_append, List.mem_append]
      obtain hold | rfl := hgrew.knows hsid
      · exact (hacc.knows hold).imp_right .inl
      · exact .inr (.inr (List.mem_singleton_self _))
    have hmarks := hacc.marks.grew hgrew (fun h => h.snoc x)
    obtain hleft | ⟨k, s, mid, hcarries, hs, hmarked, hreplies | hlost⟩ := hleft
    · exact ⟨L₂, hleft, hknows, hmarks⟩
    · exact ⟨_, hmarked, hknows, hmarks.mark hs ⟨xs, x, [], by simp, hcarries, hreplies⟩⟩
    · exact absurd hlost (hkeeps x (by simp))

/-- **Where no delivery loses its reply, every marked message was answered**, and one that was not
is new to its session when it comes again: for every lawful store, gateway, router and turn, every
sequence of deliveries and every outage in them that loses no reply. -/
theorem marked_answered (verify : (raw : String) → (headers : Dict String String) →
      Except (ChannelError V) Unit)
    (parse : (raw : String) → Except (ChannelError V) IncomingMessage) (router : WorkspaceRouter V)
    (S : LawfulStore V σ) (turn : TurnFn V ε) (xs : List Delivery) (w : RunnerWorld V σ ε)
    (hinv : S.Inv w.conversation.store)
    (hnone : ∀ sid mid, (S.view w.conversation.store).processed sid mid = false)
    (hnodup : (xs.map (·.draws.uuid)).Nodup)
    (hfresh : ∀ x ∈ xs, ¬ (S.view w.conversation.store).Knows x.draws.uuid)
    (hkeeps : ∀ x ∈ xs, ¬ x.outages.Loses) :
    let L := S.view (deliverAll verify parse router S turn xs w).conversation.store
    MarksAnswered L (Answered verify parse router S turn xs w) ∧
      ∀ (d : Draws) (c : Call V) (mid : String), ¬ L.Knows d.uuid → c.messageId = some mid →
        ¬ Answered verify parse router S turn xs w c.key mid →
          isDuplicate L (sessionOf L d c) c = false := by
  intro L
  obtain ⟨L', hL', hacc⟩ : ∃ L', IsLedger S
      (deliverAll verify parse router S turn xs w).conversation.store L' ∧
      Accounted xs (S.view w.conversation.store) L' (Answered verify parse router S turn xs w) :=
    deliverAll_accounted ⟨hinv, rfl⟩ hnone hnodup hfresh hkeeps
  obtain rfl : L = L' := hL'.2
  exact ⟨hacc.marks, fun d c mid hd hmid hnot => hacc.marks.new (S.wf hL'.1) hd hmid hnot⟩

end Deliveries

section Example

/-- A message with an id. -/
def helloMessage : IncomingMessage :=
  { channel := "webhook", rawUserRef := "u", externalThreadKey := "t", text := "hi"
    messageId := .str "m1" }

/-- A delivery of it whose calls raise so. -/
def helloDelivery (uuid : String) (outages : Outages) : Delivery :=
  { runner := oneUser, raw := "hello", headers := ∅, draws := ⟨uuid, .finite 1⟩, outages }

/-- No sessions, and nothing sent. -/
def nothingSent : RunnerWorld String (MemoryStore String) (EngineState String Unit Unit) :=
  { conversation := freshWorld }

/-- `handle_raw` of the delivery, over a gateway that accepts it. -/
def handleHello (x : Delivery) :=
  x.handleRaw (fun _ _ => .ok ()) (fun _ => .ok helloMessage)
    (fun _ => .ok { workspaceId := "ws1", userId := some "u1" }) (memoryLawful String)
    (engineTurn echoEngine)

/-- The store fails once, then the channel answers too late. -/
def retriedHello : List Delivery :=
  [helloDelivery "s1" { save := some .before }, helloDelivery "s2" { send := some .after }]

theorem marked_answered_retried :
    let L := (deliverAll (fun _ _ => .ok ()) (fun _ => .ok helloMessage)
      (fun _ => .ok { workspaceId := "ws1", userId := some "u1" }) (memoryLawful String)
      (engineTurn echoEngine) retriedHello nothingSent).conversation.store.ledger
    ∃ k s, L.session k = some s ∧ s.sessionId = "s1" ∧
      Answered (fun _ _ => .ok ()) (fun _ => .ok helloMessage)
        (fun _ => .ok { workspaceId := "ws1", userId := some "u1" }) (memoryLawful String)
        (engineTurn echoEngine) retriedHello nothingSent k "sm1" := by
  intro L
  refine (marked_answered (fun _ _ => .ok ()) (fun _ => .ok helloMessage)
    (fun _ => .ok { workspaceId := "ws1", userId := some "u1" }) (memoryLawful String)
    (engineTurn echoEngine) retriedHello nothingSent MemoryStore.Inv.empty (fun _ _ => rfl)
    (by decide) ?_ ?_).1 "s1" "sm1" rfl
  · intro x _ hknows
    obtain ⟨k, s, hs, _⟩ := hknows
    cases hs
  · intro x hx hlost
    obtain rfl | rfl : x = helloDelivery "s1" { save := some .before } ∨
        x = helloDelivery "s2" { send := some .after } := by
      simpa [retriedHello] using hx
    · obtain h | h := hlost <;> cases h
    · obtain h | h := hlost <;> cases h

/-- The channel is down when the reply is sent. -/
def lostHello : Delivery := helloDelivery "s1" { send := some .before }

/-- A message whose reply was lost was executed and is refused when it comes again: it never gets a
reply. -/
theorem reply_lost :
    let first := handleHello lostHello nothingSent
    let again := handleHello (helloDelivery "s2" {}) first.2
    first.1 = .error (.send "ConnectionError" "channel down") ∧
      again.1 = .error (.conversation (.duplicateMessage "s1" "sm1")) ∧
      again.2.conversation.engine.sent.length = 1 ∧ again.2.sentTexts = [] :=
  ⟨rfl, rfl, rfl, rfl⟩

end Example

end ClawEngine.Channels
