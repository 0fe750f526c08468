import ClawEngine.Channels.Runner
import ClawEngine.Laws.InboundParsing
import ClawEngine.Laws.Mediation
import ClawEngine.Laws.Rounds

/-!
# Thread keys

A parser makes the key of a conversation from the thread of its payload with `str`, so two accepted
payloads have one key exactly if their threads are equal or one is a text that spells the other, as
`"None"` spells `null`. In every interleaving of calls over a lawful store, two calls find one
session exactly if their keys are equal; and the calls that the runner makes for two messages of one
channel, routed to one workspace, have equal keys exactly if the threads' texts are.
-/

set_option autoImplicit false

/-! ## Sessions of calls -/

namespace ClawEngine.Orchestration

open ClawEngine.Core ClawEngine.Persistence

variable {V σ ε ι : Type} [DecidableEq ι]

section Found

variable {S : LawfulStore V σ} {turn : TurnFn V ε} {w : World σ ε} {d : ι → Draws}
  {c : ι → Call V} {log : List (ConvEvent ι V)}

/-- The call was given the session. -/
def Found (d : ι → Draws) (c : ι → Call V) (log : List (ConvEvent ι V)) (i : ι) (s : Session V) :
    Prop :=
  didLookup (d i) (c i) (.ok s) ∈ Pool.own i log

/-- A session that was found is under the call's key, with its id, from then on. -/
theorem ConvHistory.row_of_found (hstart : Start S w d) (h : ConvHistory S turn w d c log) {i : ι}
    {s : Session V} (hs : Found d c log i s) :
    ∃ row, (ledgerAt S turn w log).session (c i).key = some row ∧ row.sessionId = s.sessionId := by
  obtain ⟨row, hrow, hid, -⟩ := (ConvHistory.sound hstart h).found hs
  rw [ConvHistory.lookup_key hstart h (Pool.mem_own.mp hs)] at hrow
  exact ⟨row, hrow, hid⟩

/-- **Two calls find one session exactly if their keys are equal.** -/
theorem ConvHistory.sessionId_eq_iff (hstart : Start S w d) (h : ConvHistory S turn w d c log)
    {i j : ι} {s s' : Session V} (hs : Found d c log i s) (hs' : Found d c log j s') :
    s.sessionId = s'.sessionId ↔ (c i).key = (c j).key := by
  obtain ⟨row, hrow, hid⟩ := ConvHistory.row_of_found hstart h hs
  obtain ⟨row', hrow', hid'⟩ := ConvHistory.row_of_found hstart h hs'
  constructor
  · intro hsame
    exact (ConvHistory.wf hstart h).id_inj hrow hrow' (hid.trans (hsame.trans hid'.symm))
  · intro hkey
    rw [hkey, hrow'] at hrow
    rw [← hid, ← hid', Option.some.inj hrow]

end Found

end ClawEngine.Orchestration

namespace ClawEngine.Channels

open ClawEngine.Core ClawEngine.Context ClawEngine.Orchestration ClawEngine.Persistence

/-! ## Threads -/

/-- The channels with a parser. -/
inductive InboundChannel
  | webhook | seaTalk
  deriving DecidableEq, Repr

namespace InboundChannel

def parseInbound (py : ParseLib) : InboundChannel → String → Except PyError IncomingMessage
  | webhook => WebhookChannel.parseInbound py
  | seaTalk => SeaTalkChannel.parseInbound py

/-- Where the payloads of a channel have their thread. -/
def threadPath : InboundChannel → List String
  | webhook => ["thread"]
  | seaTalk => ["event", "thread_id"]

/-- The value of `channel.name`. -/
def name : InboundChannel → String
  | webhook => "webhook"
  | seaTalk => "seatalk"

/-- The thread of a payload. -/
def threadOf (py : ParseLib) (C : InboundChannel) (raw : String) : Option Json :=
  (py.loads raw).toOption.bind (·.lookup C.threadPath)

end InboundChannel

/-- Two threads that are one for `str`: they are equal, or one is a text that spells the other. -/
def SameThread (py : ParseLib) (a b : Json) : Prop :=
  a = b ∨ Names py.interpreter py.floats a b ∨ Names py.interpreter py.floats b a

section Accepted

variable {py : ParseLib} {raw : String} {msg : IncomingMessage}

theorem decoded_of_decode {malformed : String} {payload : Json}
    (h : py.decode malformed raw = .ok payload) : py.loads raw = .ok payload := by
  unfold ParseLib.decode at h
  cases hloads : py.loads raw with
  | error e =>
    rw [hloads] at h
    cases h
  | ok value =>
    rw [hloads] at h
    cases h
    rfl

theorem strValue_of_str {v : Json} {text : String} (h : py.str v = .ok text) :
    text = String.ofList (strValue py.interpreter py.floats v) := by
  unfold ParseLib.str at h
  split at h
  · cases h
  · cases h
    rfl

/-- What an accepted payload has for its thread, and what its message has. -/
theorem InboundChannel.thread_of_parsed {C : InboundChannel} (h : C.parseInbound py raw = .ok msg) :
    ∃ thread, C.threadOf py raw = some thread ∧ msg.channel = C.name ∧
      msg.externalThreadKey = String.ofList (strValue py.interpreter py.floats thread) := by
  cases C with
  | webhook =>
    change WebhookChannel.parseInbound py raw = .ok msg at h
    unfold WebhookChannel.parseInbound at h
    obtain ⟨payload, hload, h⟩ := except_bind_eq_ok.mp h
    obtain ⟨fields, hfields, h⟩ := except_bind_eq_ok.mp h
    obtain ⟨given, -, h⟩ := except_bind_eq_ok.mp h
    obtain ⟨items, -, h⟩ := except_bind_eq_ok.mp h
    obtain ⟨user, -, h⟩ := except_bind_eq_ok.mp h
    obtain ⟨key, hkey, h⟩ := except_bind_eq_ok.mp h
    obtain ⟨text, -, h⟩ := except_bind_eq_ok.mp h
    obtain ⟨messageId, -, h⟩ := except_bind_eq_ok.mp h
    obtain ⟨attachments, -, h⟩ := except_bind_eq_ok.mp h
    cases h
    obtain ⟨-, hthread, -⟩ := (WebhookChannel.fields_eq_ok py).mp
      (except_mapError_eq_ok.mp hfields)
    refine ⟨fields.thread, ?_, rfl, strValue_of_str hkey⟩
    rw [threadOf, decoded_of_decode hload]
    exact lookup_one.trans hthread
  | seaTalk =>
    change SeaTalkChannel.parseInbound py raw = .ok msg at h
    unfold SeaTalkChannel.parseInbound at h
    obtain ⟨payload, hload, h⟩ := except_bind_eq_ok.mp h
    obtain ⟨eventType, -, h⟩ := except_bind_eq_ok.mp h
    obtain ⟨-, -, h⟩ := except_bind_eq_ok.mp h
    obtain ⟨em, hem, h⟩ := except_bind_eq_ok.mp h
    obtain ⟨tag, -, h⟩ := except_bind_eq_ok.mp h
    obtain ⟨-, -, h⟩ := except_bind_eq_ok.mp h
    obtain ⟨fields, hfields, h⟩ := except_bind_eq_ok.mp h
    obtain ⟨user, -, h⟩ := except_bind_eq_ok.mp h
    obtain ⟨key, hkey, h⟩ := except_bind_eq_ok.mp h
    obtain ⟨text, -, h⟩ := except_bind_eq_ok.mp h
    obtain ⟨messageId, -, h⟩ := except_bind_eq_ok.mp h
    cases h
    obtain ⟨hevent, -⟩ := (SeaTalkChannel.eventMessage_eq_ok py).mp
      (except_mapError_eq_ok.mp hem)
    obtain ⟨-, -, hthread⟩ := (SeaTalkChannel.fields_eq_ok py).mp
      (except_mapError_eq_ok.mp hfields)
    refine ⟨fields.thread, ?_, rfl, strValue_of_str hkey⟩
    rw [threadOf, decoded_of_decode hload]
    change payload.lookup ["event", "thread_id"] = _
    rw [lookup_two, hevent]
    exact lookup_one.symm.trans hthread

end Accepted

/-! ## Keys and sessions -/

/-- The call of `handle` is the runner's for the message, routed to the workspace. -/
def CallFor {V : Type} (c : Call V) (msg : IncomingMessage) (workspaceId : String) : Prop :=
  ∃ (R : ChannelRunner) (decision : RouteDecision) (ws : ResolvedWorkspace)
    (messageId : Option String), decision.workspaceId = workspaceId ∧
      c = GatewayCall.inWorkspace { R.gatewayCall msg decision with messageId } ws

theorem CallFor.key {V : Type} {c : Call V} {msg : IncomingMessage} {workspaceId : String}
    (h : CallFor c msg workspaceId) :
    c.key = ⟨workspaceId, msg.channel, msg.externalThreadKey⟩ := by
  obtain ⟨R, decision, ws, messageId, rfl, rfl⟩ := h
  rfl

theorem ofList_strValue_eq_iff {py : ParseLib} {a b : Json} :
    String.ofList (strValue py.interpreter py.floats a) =
      String.ofList (strValue py.interpreter py.floats b) ↔ SameThread py a b := by
  rw [String.ofList_inj]
  exact strValue_eq_iff

/-- Of the texts, only `None` spells `null`. -/
theorem sameThread_null {py : ParseLib} {text : String} :
    SameThread py .null (.str text) ↔ text = "None" := by
  constructor
  · rintro (h | ⟨text', h, -⟩ | ⟨text', h, -, htext⟩)
    · cases h
    · cases h
    · cases h
      exact String.toList_inj.mp htext
  · rintro rfl
    refine .inr (.inr ⟨"None", rfl, ?_, rfl⟩)
    intro h
    cases h

variable {V σ ε ι : Type} [DecidableEq ι]

/-- **Which threads share a key, and a session.** Two accepted payloads of a channel have one key
exactly if `str` takes their threads to one text; and in every interleaving of calls over a lawful
store, two calls for messages of one channel in one workspace find one session exactly then. -/
theorem thread_keys (py : ParseLib) (C : InboundChannel) (raw raw' : String)
    (msg msg' : IncomingMessage) (h : C.parseInbound py raw = .ok msg)
    (h' : C.parseInbound py raw' = .ok msg') (S : LawfulStore V σ) (turn : TurnFn V ε)
    (w : World σ ε) (d : ι → Draws) (c : ι → Call V) (hstart : Start S w d) (schedule : List ι) :
    ∃ thread thread', C.threadOf py raw = some thread ∧ C.threadOf py raw' = some thread' ∧
      (msg.externalThreadKey = msg'.externalThreadKey ↔ SameThread py thread thread') ∧
      (∀ text, thread = .null → thread' = .str text →
        (msg.externalThreadKey = msg'.externalThreadKey ↔ text = "None")) ∧
      ∀ i j workspaceId s s', CallFor (c i) msg workspaceId → CallFor (c j) msg' workspaceId →
        Found d c ((Pool.start w fun i => handle (d i) (c i)).run (handler S.ops turn) schedule).log
          i s →
        Found d c ((Pool.start w fun i => handle (d i) (c i)).run (handler S.ops turn) schedule).log
          j s' →
        (s.sessionId = s'.sessionId ↔ SameThread py thread thread') := by
  obtain ⟨thread, hthread, hname, hkey⟩ := InboundChannel.thread_of_parsed h
  obtain ⟨thread', hthread', hname', hkey'⟩ := InboundChannel.thread_of_parsed h'
  have hiff : msg.externalThreadKey = msg'.externalThreadKey ↔ SameThread py thread thread' := by
    rw [hkey, hkey', ofList_strValue_eq_iff]
  refine ⟨thread, thread', hthread, hthread', hiff, ?_, ?_⟩
  · rintro text rfl rfl
    rw [hiff, sameThread_null]
  · intro i j workspaceId s s' hi hj hs hs'
    have hlog := (Pool.run_history (handler S.ops turn) w (fun i => handle (d i) (c i)) schedule).2.2
    rw [ConvHistory.sessionId_eq_iff hstart hlog hs hs', hi.key, hj.key, ← hiff]
    constructor
    · intro hsame
      exact (Key.mk.inj hsame).2.2
    · intro hsame
      rw [hname, hname', hsame]

/-! ## Two threads of one text -/

/-- The text of a webhook payload of a thread, and the payload. -/
def threadText (thread : String) : String :=
  "\x7b\"user\":\"u\",\"thread\":" ++ thread ++ ",\"text\":\"hi\"\x7d"

def threadPayload (thread : Json) : Json :=
  .obj [("user", .str "u"), ("thread", thread), ("text", .str "hi")]

/-- A decoder of a payload without a thread and of one whose thread is called `None`. -/
def noneLib : ParseLib :=
  decodes [(threadText "null", threadPayload .null),
    (threadText "\"None\"", threadPayload (.str "None"))]

/-- What the parser makes of either. -/
def noneMessage : IncomingMessage :=
  { channel := "webhook", rawUserRef := "u", externalThreadKey := "None", text := "hi"
    isCommand := "hi".startsWith "/" }

/-- The runner's call for it. -/
def noneCall : Call String :=
  GatewayCall.inWorkspace (oneUser.gatewayCall noneMessage { workspaceId := "ws1" })
    (oneUser.resolver.workspace "ws1" ∅ ∅)

/-- A thread that is `null` and one that is called `None` share a session. -/
theorem thread_keys_none :
    let log := ((Pool.start freshWorld fun i => handle (twoDraws i) noneCall).run
      (handler (memoryLawful String).ops (engineTurn echoEngine)) [true, false]).log
    ∃ s s', Found twoDraws (fun _ => noneCall) log true s ∧
      Found twoDraws (fun _ => noneCall) log false s' ∧ s.sessionId = s'.sessionId := by
  intro log
  obtain ⟨thread, thread', hthread, hthread', -, -, hsessions⟩ := thread_keys noneLib .webhook
    (threadText "null") (threadText "\"None\"") noneMessage noneMessage rfl rfl
    (memoryLawful String) (engineTurn echoEngine) freshWorld twoDraws (fun _ => noneCall)
    twoDraws_start [true, false]
  cases hthread
  cases hthread'
  have hcall : CallFor noneCall noneMessage "ws1" :=
    ⟨oneUser, { workspaceId := "ws1" }, oneUser.resolver.workspace "ws1" ∅ ∅, none, rfl, rfl⟩
  have htrue : Found twoDraws (fun _ => noneCall) log true _ := List.mem_of_getElem? (i := 0) rfl
  have hfalse : Found twoDraws (fun _ => noneCall) log false _ := List.mem_of_getElem? (i := 0) rfl
  refine ⟨_, _, htrue, hfalse, ?_⟩
  exact (hsessions true false "ws1" _ _ hcall hcall htrue hfalse).mpr (sameThread_null.mpr rfl)

/-- Two accepted payloads of different threads have one key. -/
theorem none_thread_collides : ¬ ∀ (py : ParseLib) (C : InboundChannel) (raw raw' : String)
    (msg msg' : IncomingMessage) (thread thread' : Json), C.parseInbound py raw = .ok msg →
      C.parseInbound py raw' = .ok msg' → C.threadOf py raw = some thread →
      C.threadOf py raw' = some thread' → thread ≠ thread' →
        msg.externalThreadKey ≠ msg'.externalThreadKey := by
  intro hclaim
  refine hclaim noneLib .webhook (threadText "null") (threadText "\"None\"") noneMessage noneMessage
    .null (.str "None") rfl rfl rfl rfl ?_ rfl
  intro h
  cases h

end ClawEngine.Channels
