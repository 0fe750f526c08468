import ClawEngine.Backends.Cli
import ClawEngine.Laws.Conversation
import ClawEngine.Laws.EventStreams
import ClawEngine.Laws.TurnTrace
import Mathlib.Data.List.Induction

/-!
# The resume handle of a session

A turn that completes does so at a line or at the end of its lines, in the state that the lines
before left. From what the two adapters keep of a session id from line to line follows what a turn
returns as its thread, and from that what a session keeps of it from call to call.
-/

set_option autoImplicit false

namespace ClawEngine.Backends

open ClawEngine.Core ClawEngine.Runtime ClawEngine.Orchestration

/-! ## Where a turn completes -/

section Loop

variable {S : Type} {onLine : S → String → LineResult S}
  {finish : S → Int → List (AgentEvent Json)}

/-- The state after lines that the loop went on from. -/
inductive Passes (onLine : S → String → LineResult S) : S → List String → S → Prop
  | nil (s : S) : Passes onLine s [] s
  | cons {s s' s'' : S} {line : String} {lines : List String} {events : List (AgentEvent Json)}
    (h : onLine s line = .next events s') (hrest : Passes onLine s' lines s'') :
    Passes onLine s (line :: lines) s''

/-- A turn that completes with `r` does so at a line that ends it, or after its lines. -/
inductive CompletesWith (onLine : S → String → LineResult S)
    (finish : S → Int → List (AgentEvent Json)) (s : S) (lines : List String) (code : Int)
    (r : AgentRunResult Json) : Prop
  | atLine {before rest : List String} {line : String} {s' : S} {events : List (AgentEvent Json)}
    {event : AgentEvent Json} (hlines : lines = before ++ line :: rest)
    (hbefore : Passes onLine s before s') (hline : onLine s' line = .done events)
    (hevent : event ∈ events) (hr : completion event = some r)
  | afterLines {s' : S} {event : AgentEvent Json} (hlines : Passes onLine s lines s')
    (hevent : event ∈ finish s' code) (hr : completion event = some r)

/-- The events a line yields when the loop goes on, or is interrupted, complete nothing. -/
def CompletesAtEnd (onLine : S → String → LineResult S) : Prop :=
  ∀ s line, (∀ events s', onLine s line = .next events s' →
      ∀ event ∈ events, completion event = none) ∧
    ∀ events e, onLine s line = .raised events e → ∀ event ∈ events, completion event = none

theorem completion_handleException {cli : String} {timeoutS : Int} {e : PyError}
    {event : AgentEvent Json} (h : event ∈ (handleException cli timeoutS e).events) :
    completion event = none := by
  unfold handleException at h
  split_ifs at h
  · rw [List.mem_singleton.mp h]
    rfl
  · rw [List.mem_singleton.mp h]
    rfl
  · cases h

/-- **Where a loop completes.** -/
theorem driveLines_completes {cli : String} {timeoutS : Int} (honLine : CompletesAtEnd onLine)
    {stop : Option PyError} {code : Int} {lines : List String} {s : S}
    {event : AgentEvent Json} {r : AgentRunResult Json}
    (h : event ∈ (driveLines cli timeoutS onLine finish stop code s lines).events)
    (hr : completion event = some r) : CompletesWith onLine finish s lines code r := by
  induction lines generalizing s with
  | nil =>
    cases stop with
    | none => exact .afterLines (.nil s) h hr
    | some e =>
      rw [completion_handleException h] at hr
      cases hr
  | cons line lines ih =>
    rw [driveLines] at h
    cases hline : onLine s line with
    | next events s' =>
      rw [hline] at h
      rcases List.mem_append.mp h with hmem | hmem
      · rw [(honLine s line).1 events s' hline event hmem] at hr
        cases hr
      · cases ih hmem with
        | atLine hlines hbefore hdone hevent hr =>
          exact .atLine (by rw [hlines, List.cons_append]) (.cons hline hbefore) hdone hevent hr
        | afterLines hlines hevent hr => exact .afterLines (.cons hline hlines) hevent hr
    | done events =>
      rw [hline] at h
      exact .atLine (List.nil_append _).symm (.nil s) hline h hr
    | raised events e =>
      rw [hline] at h
      rcases List.mem_append.mp h with hmem | hmem
      · rw [(honLine s line).2 events e hline event hmem] at hr
        cases hr
      · rw [completion_handleException hmem] at hr
        cases hr

/-- What a line keeps, the lines keep. -/
theorem Passes.keeps {P : S → Prop} (hP : ∀ s line events s', onLine s line = .next events s' →
    P s → P s') {s s' : S} {lines : List String} (h : Passes onLine s lines s') (hs : P s) :
    P s' := by
  induction h with
  | nil => exact hs
  | cons hline _ ih => exact ih (hP _ _ _ _ hline hs)

end Loop

theorem completion_of_open {events : List (AgentEvent Json)} (h : Open events)
    {event : AgentEvent Json} (hmem : event ∈ events) : completion event = none := by
  have hterminal := h event hmem
  rw [AgentEvent.isTerminal, Bool.or_eq_false_iff, decide_eq_false_iff_not] at hterminal
  exact if_neg hterminal.1

/-- What a reader says of a line function is enough. -/
theorem completesAtEnd_of_reads {S T : Type} {onLine : S → String → LineResult S}
    {r : LineReader T} {view : S → T} (h : Reads onLine r view) : CompletesAtEnd onLine := by
  intro s line
  have hline := h s line
  constructor
  · intro events s' hnext event hmem
    rw [hnext] at hline
    exact completion_of_open hline.2.2 hmem
  · intro events e hraised event hmem
    rw [hraised] at hline
    exact completion_of_open hline.2 hmem

/-- What a line does: to the state, when the loop goes on, and in its events, when the turn ends. -/
def LineResult.Meets {S : Type} (next : S → Prop) (ends : List (AgentEvent Json) → Prop) :
    LineResult S → Prop
  | .next _ s => next s
  | .done events => ends events
  | .raised _ _ => True

/-- Events of which none completes the turn. -/
def CompletesNothing (events : List (AgentEvent Json)) : Prop :=
  ∀ event ∈ events, completion event = none

theorem completesNothing_singleton {event : AgentEvent Json} (h : completion event = none) :
    CompletesNothing [event] := by
  intro event' hmem
  rw [List.mem_singleton.mp hmem, h]

theorem completesNothing_cons {event : AgentEvent Json} {events : List (AgentEvent Json)}
    (h : completion event = none) (hrest : CompletesNothing events) :
    CompletesNothing (event :: events) := by
  intro event' hmem
  rcases List.mem_cons.mp hmem with rfl | hmem
  · exact h
  · exact hrest event' hmem

theorem meets_protocolError {S : Type} {next : S → Prop} (message : String) (evt : Option Json) :
    (LineResult.done [protocolError message evt] : LineResult S).Meets next CompletesNothing :=
  completesNothing_singleton rfl

/-! ## codex -/

namespace Codex

/-- A line keeps the thread id, or announces another. -/
def KeepsThread (s s' : State) : Prop :=
  s'.threadId = s.threadId ∨ ∃ tid, s'.threadId = some tid ∧ tid.truthy = true

theorem onItem_thread (s : State) (members : List (String × Json)) :
    (onItem s members).Meets (KeepsThread s) CompletesNothing := by
  unfold onItem
  dsimp only
  split
  · exact meets_protocolError _ _
  · split_ifs
    · exact meets_protocolError _ _
    · exact meets_protocolError _ _
    · exact .inl rfl
    · exact meets_protocolError _ _
    · exact .inl rfl
    · exact .inl rfl

theorem onObject_thread (s : State) (members : List (String × Json)) :
    (onObject s members).Meets (KeepsThread s) CompletesNothing := by
  unfold onObject
  dsimp only
  split_ifs with hstarted htid hitem
  · exact meets_protocolError _ _
  · exact .inr ⟨_, rfl, by simpa only [Bool.not_eq_true', Bool.not_eq_false] using htid⟩
  · exact onItem_thread s members
  · exact .inl rfl

theorem onLine_thread (py : PyLib) (s : State) (line : String) :
    (onLine py s line).Meets (KeepsThread s) CompletesNothing := by
  unfold onLine
  split
  · exact .inl rfl
  · split
    · split
      · exact meets_protocolError _ _
      · trivial
    · exact onObject_thread s _
    · trivial

/-- **What a codex turn returns as its thread**: there is one if there was one before, and it can be
resumed if the one before could. -/
theorem run_thread {py : PyLib} {command : String} {spawn : SpawnFn} {req : AgentRunRequest Json}
    {event : AgentEvent Json} {r : AgentRunResult Json}
    (h : event ∈ (run py command spawn req).events) (hr : completion event = some r) :
    (req.backendThreadId ≠ none → r.backendThreadId ≠ none) ∧
      ((∀ tid, req.backendThreadId = some tid → tid.truthy = true) →
        ∀ tid, r.backendThreadId = some tid → tid.truthy = true) := by
  unfold run at h
  cases hspawn : spawn (buildArgv command req) req.cwd req.env req.timeoutS with
  | failed e =>
    rw [hspawn] at h
    cases h
  | started lines stop code =>
    rw [hspawn] at h
    cases driveLines_completes (completesAtEnd_of_reads (onLine_reads py)) h hr with
    | atLine hlines hbefore hline hevent hr =>
      have hmeets : LineResult.Meets _ _ (.done _) := hline ▸ onLine_thread py _ _
      rw [hmeets _ hevent] at hr
      cases hr
    | afterLines hlines hevent hr =>
      have hthread : ∀ (P : Option Json → Prop), P req.backendThreadId →
          (∀ tid, tid.truthy = true → P (some tid)) → P r.backendThreadId := by
        intro P hreq htruthy
        have hkept := hlines.keeps (P := fun s => P s.threadId) (fun s line events s' hnext hs => by
          have hmeets : LineResult.Meets _ _ (.next _ _) := hnext ▸ onLine_thread py s line
          rcases hmeets with hsame | ⟨tid, htid, htrue⟩
          · rwa [hsame]
          · rw [htid]
            exact htruthy tid htrue) hreq
        unfold finish at hevent
        split_ifs at hevent
        · rw [List.mem_singleton.mp hevent] at hr
          cases hr
        · rw [List.mem_singleton.mp hevent] at hr
          cases hr
          exact hkept
      constructor
      · intro hsome
        exact hthread (· ≠ none) hsome fun _ _ => Option.some_ne_none _
      · intro htruthy
        exact hthread (fun t => ∀ tid, t = some tid → tid.truthy = true) htruthy
          fun tid htid tid' heq => Option.some.inj heq ▸ htid

end Codex

/-! ## claude -/

namespace Claude

/-- The session id that an init line announces. -/
def announces (py : PyLib) (line : String) : Option Json :=
  if isBlank line then none
  else
    match py.loads line with
    | .ok (.obj members) => if isInit members then some (Json.get members "session_id") else none
    | _ => none

/-- The session id last announced in the lines. -/
def lastAnnounced (py : PyLib) (lines : List String) : Option Json :=
  (lines.filterMap (announces py)).getLast?

/-- A line of type `result`. -/
def isResultLine (py : PyLib) (line : String) : Bool :=
  !isBlank line &&
    match py.loads line with
    | .ok (.obj members) => (Json.get members "type").isStr "result"
    | _ => false

/-- A result that takes up the session id in force. -/
structure TakesUp (sid : Option Json) (r : AgentRunResult Json) : Prop where
  handle : ∃ h, r.backendThreadId = some h ∧ h.truthy = true ∧ mismatch sid h = false

theorem onBlocks_session (evt : Json) (blocks : List Json) (s : State) :
    (onBlocks evt s blocks).Meets (fun s' => s'.sessionId = s.sessionId) CompletesNothing := by
  induction blocks generalizing s with
  | nil => rfl
  | cons block blocks ih =>
    unfold onBlocks
    split
    · exact ih s
    next members _ =>
    dsimp only
    split_ifs
    · exact meets_protocolError _ _
    · have hrest := ih { s with finalText := (Json.get members "text").orElse (.str "") }
      split
      · next heq => exact (heq ▸ hrest : LineResult.Meets _ _ (.next _ _))
      · next heq =>
        have hdone : LineResult.Meets _ _ (.done _) := heq ▸ hrest
        exact completesNothing_cons rfl hdone
      · trivial
    · exact meets_protocolError _ _
    · have hrest := ih s
      split
      · next heq => exact (heq ▸ hrest : LineResult.Meets _ _ (.next _ _))
      · next heq =>
        have hdone : LineResult.Meets _ _ (.done _) := heq ▸ hrest
        exact completesNothing_cons rfl hdone
      · trivial
    · exact ih s

/-- Events that complete the turn, if they do, with the session id in force. -/
def CompletesUnder (sid : Option Json) (events : List (AgentEvent Json)) : Prop :=
  ∀ event ∈ events, ∀ r, completion event = some r → TakesUp sid r

theorem completesUnder_of_nothing {events : List (AgentEvent Json)}
    (h : CompletesNothing events) (sid : Option Json) : CompletesUnder sid events := by
  intro event hmem r hr
  rw [h event hmem] at hr
  cases hr

theorem onResult_session (py : PyLib) (s : State) (members : List (String × Json)) :
    (onResult py s members).Meets (fun _ => False) (CompletesUnder s.sessionId) := by
  have herror : ∀ {events : List (AgentEvent Json)}, CompletesNothing events →
      (LineResult.done events : LineResult State).Meets (fun _ => False)
        (CompletesUnder s.sessionId) := fun h => completesUnder_of_nothing h s.sessionId
  unfold onResult
  dsimp only
  split_ifs with herr htext htruthy hmismatch
  · exact herror (completesNothing_singleton rfl)
  · exact herror (completesNothing_singleton rfl)
  · exact herror (completesNothing_singleton rfl)
  · exact herror (completesNothing_singleton rfl)
  · split
    · trivial
    · intro event hmem r hr
      rw [List.mem_singleton.mp hmem] at hr
      cases hr
      exact ⟨_, rfl, by simpa only [Bool.not_eq_true', Bool.not_eq_false] using htruthy,
        Bool.eq_false_iff.mpr hmismatch⟩

/-- The session id that a decoded line announces. -/
def announced (members : List (String × Json)) : Option Json :=
  if isInit members then some (Json.get members "session_id") else none

/-- What a line, or a decoded line, does to the session id in force. -/
def SessionLine (s : State) (announced : Option Json) (isResult : Bool) :
    LineResult State → Prop :=
  LineResult.Meets
    (fun s' => s'.sessionId = announced.or s.sessionId ∧ isResult = false)
    fun events => CompletesUnder s.sessionId events ∧
      (isResult = false → CompletesNothing events)

theorem isStr_inj {v : Json} {a b : String} (ha : v.isStr a = true) (hb : v.isStr b = true) :
    a = b := by
  cases v with
  | str s =>
    simp only [Json.isStr, beq_iff_eq] at ha hb
    rw [← ha, hb]
  | _ => cases ha

theorem onObject_session (py : PyLib) (s : State) (members : List (String × Json)) :
    SessionLine s (announced members) ((Json.get members "type").isStr "result")
      (onObject py s members) := by
  have hnothing : ∀ {events : List (AgentEvent Json)}, CompletesNothing events →
      SessionLine s (announced members) ((Json.get members "type").isStr "result") (.done events) :=
    fun h => ⟨completesUnder_of_nothing h s.sessionId, fun _ => h⟩
  unfold onObject
  dsimp only
  by_cases hinit : isInit members = true
  · have hsystem := (Bool.and_eq_true_iff.mp hinit).1
    have hresult : (Json.get members "type").isStr "result" = false := by
      rw [← Bool.not_eq_true]
      exact fun h => absurd (isStr_inj hsystem h) (by decide)
    unfold isInit at hinit
    rw [if_pos hinit]
    unfold onInit
    dsimp only
    split_ifs
    · exact hnothing (completesNothing_singleton rfl)
    · refine ⟨?_, hresult⟩
      rw [announced, isInit, if_pos hinit]
      rfl
  · have hkept : ∀ s' : State, s'.sessionId = s.sessionId →
        s'.sessionId = (announced members).or s.sessionId := by
      intro s' h
      rw [announced, if_neg hinit, h]
      rfl
    unfold isInit at hinit
    rw [if_neg hinit]
    split_ifs with hassistant hresult
    · have hnot : (Json.get members "type").isStr "result" = false := by
        rw [← Bool.not_eq_true]
        exact fun h => absurd (isStr_inj hassistant h) (by decide)
      unfold onAssistant
      dsimp only
      split
      · exact hnothing (completesNothing_singleton rfl)
      · next blocks _ =>
        have hblocks := onBlocks_session (.obj members) blocks s
        cases hout : onBlocks (.obj members) s blocks with
        | next events s' =>
          rw [hout] at hblocks
          exact ⟨hkept s' hblocks, hnot⟩
        | done events =>
          rw [hout] at hblocks
          exact hnothing hblocks
        | raised events e => trivial
    · have hline := onResult_session py s members
      cases hout : onResult py s members with
      | next events s' =>
        rw [hout] at hline
        exact hline.elim
      | done events =>
        rw [hout] at hline
        refine ⟨hline, fun hnot => ?_⟩
        rw [hresult] at hnot
        cases hnot
      | raised events e => trivial
    · exact ⟨hkept s rfl, Bool.eq_false_iff.mpr hresult⟩

/-- A claude line keeps the session id in force or announces another. A line that completes the turn
is a result line, and its result takes up the id in force. -/
theorem onLine_session (py : PyLib) (s : State) (line : String) :
    SessionLine s (announces py line) (isResultLine py line) (onLine py s line) := by
  unfold onLine announces isResultLine
  cases isBlank line with
  | true => exact ⟨rfl, rfl⟩
  | false =>
    simp only [Bool.false_eq_true, if_false, Bool.not_false, Bool.true_and]
    cases py.loads line with
    | error e =>
      dsimp only
      split
      · have hnothing : CompletesNothing [protocolError
            s!"无法解析 claude 输出行: {py.repr (.str (clip line))}"] :=
          completesNothing_singleton rfl
        exact ⟨completesUnder_of_nothing hnothing s.sessionId, fun _ => hnothing⟩
      · trivial
    | ok v =>
      cases v with
      | obj members => exact onObject_session py s members
      | _ => trivial

theorem lastAnnounced_cons (py : PyLib) (line : String) (lines : List String) :
    lastAnnounced py (line :: lines) = (lastAnnounced py lines).or (announces py line) := by
  unfold lastAnnounced
  cases hline : announces py line with
  | none => rw [List.filterMap_cons_none hline, Option.or_none]
  | some sid =>
    rw [List.filterMap_cons_some hline, List.getLast?_cons]
    cases ((lines.filterMap (announces py)).getLast?) with
    | none => rfl
    | some sid' => rfl

theorem passes_session {py : PyLib} {s s' : State} {lines : List String}
    (h : Passes (onLine py) s lines s') :
    s'.sessionId = (lastAnnounced py lines).or s.sessionId ∧
      ∀ line ∈ lines, isResultLine py line = false := by
  induction h with
  | nil => exact ⟨rfl, nofun⟩
  | cons hline _ ih =>
    next s _ _ line _ _ _ =>
    obtain ⟨hid, hresults⟩ := ih
    have hkept : SessionLine s (announces py line) (isResultLine py line) (.next _ _) :=
      hline ▸ onLine_session py s line
    rw [hid, hkept.1, lastAnnounced_cons, Option.or_assoc]
    exact ⟨rfl, List.forall_mem_cons.mpr ⟨hkept.2, hresults⟩⟩

/-- The handle of a completed claude turn: a value that can be resumed, equal to the session id last
announced before the first result line, or to the one the turn was resumed with, as far as there is
one. -/
structure AnnouncedHandle (py : PyLib) (resumed : Option Json) (lines : List String) (h : Json) :
    Prop where
  truthy : h.truthy = true
  announced : ∃ before result rest, lines = before ++ result :: rest ∧
    isResultLine py result = true ∧ (∀ line ∈ before, isResultLine py line = false) ∧
    ∀ sid, (lastAnnounced py before).or resumed = some sid → h.eq sid = true

theorem TakesUp.eq {sid : Option Json} {r : AgentRunResult Json} (h : TakesUp sid r) :
    ∃ v, r.backendThreadId = some v ∧ v.truthy = true ∧ ∀ id, sid = some id → v.eq id = true := by
  obtain ⟨v, hv, htruthy, hmismatch⟩ := h.handle
  refine ⟨v, hv, htruthy, fun id hid => ?_⟩
  rw [hid, mismatch, Bool.not_eq_false'] at hmismatch
  exact hmismatch

/-- **What a claude turn returns as its thread.** -/
theorem run_thread {py : PyLib} {command : String} {spawn : SpawnFn} {req : AgentRunRequest Json}
    {event : AgentEvent Json} {r : AgentRunResult Json}
    (h : event ∈ (run py command spawn req).events) (hr : completion event = some r) :
    ∃ handle lines stop code, r.backendThreadId = some handle ∧
      spawn (buildArgv command req) req.cwd req.env req.timeoutS = .started lines stop code ∧
      AnnouncedHandle py req.backendThreadId lines handle := by
  unfold run at h
  cases hspawn : spawn (buildArgv command req) req.cwd req.env req.timeoutS with
  | failed e =>
    rw [hspawn] at h
    cases h
  | started lines stop code =>
    rw [hspawn] at h
    cases driveLines_completes (completesAtEnd_of_reads (onLine_reads py)) h hr with
    | atLine hlines hbefore hline hevent hr =>
      next before rest line s' events event =>
      obtain ⟨hid, hresults⟩ := passes_session hbefore
      have hends : SessionLine s' (announces py line) (isResultLine py line) (.done events) :=
        hline ▸ onLine_session py s' line
      have hresult : isResultLine py line = true := by
        by_contra hnot
        rw [hends.2 (Bool.eq_false_iff.mpr hnot) event hevent] at hr
        cases hr
      obtain ⟨handle, hhandle, htruthy, hequal⟩ := (hends.1 event hevent r hr).eq
      refine ⟨handle, lines, stop, code, hhandle, rfl, htruthy,
        before, line, rest, hlines, hresult, hresults, fun sid hsid => hequal sid ?_⟩
      rw [hid, hsid]
    | afterLines hlines hevent hr =>
      unfold finish at hevent
      split_ifs at hevent
      · rw [List.mem_singleton.mp hevent] at hr
        cases hr
      · rw [List.mem_singleton.mp hevent] at hr
        cases hr

end Claude

end ClawEngine.Backends

namespace ClawEngine.Orchestration

open ClawEngine.Core ClawEngine.Runtime ClawEngine.Observability ClawEngine.Persistence
open ClawEngine.Backends

variable {V ω τ σ : Type}

/-! ## What a turn returns -/

section Turn

variable {tracer : Tracer V τ σ} {span : σ} {caps : BackendCapabilities} {onEvent : OnEvent V ω}
  {raised : Option (Raised V)} {r : AgentRunResult V}

/-- An event changes the result to the one it completes with, or not at all. -/
theorem consumeEvent_result {event : AgentEvent V} {st st' : LoopState V ω τ}
    (h : consumeEvent tracer span caps onEvent event st = (.ok (), st')) :
    st'.result = st.result ∨ st'.result = completion event := by
  have hcall : ∀ st : LoopState V ω τ, (callOnEvent onEvent event st).2.result = st.result := by
    intro st
    cases onEvent <;> rfl
  have hrecord : ∀ st : LoopState V ω τ, (recordTool tracer span event st).result = st.result := by
    intro st
    unfold recordTool
    split <;> rfl
  have hterminal : ∀ st, onTerminal tracer span event st = (.ok (), st') →
      st'.result = st.result ∨ st'.result = completion event := by
    intro st h
    unfold onTerminal at h
    split at h
    · split at h <;> cases h
    · next hkind =>
      split at h
      · cases h
      · next result hresult =>
        cases h
        exact .inr (by rw [completion, if_pos hkind, hresult])
    · cases h
      exact .inl rfl
  unfold consumeEvent at h
  split at h
  · cases h
    exact .inl rfl
  · have hcalled := hcall st
    generalize callOnEvent onEvent event st = out at h hcalled
    obtain ⟨exc, st₁⟩ := out
    cases exc with
    | some exc => cases h
    | none =>
      rcases hterminal _ h with hsame | hnew
      · exact .inl (by rw [hsame, hrecord, ← hcalled])
      · exact .inr hnew

theorem consume_result {events : List (AgentEvent V)} {st st' : LoopState V ω τ}
    (h : consume tracer span caps onEvent raised events st = (.ok (), st'))
    (hr : st'.result = some r) :
    st.result = some r ∨ ∃ event ∈ events, completion event = some r := by
  induction events generalizing st with
  | nil =>
    cases raised with
    | some exc => cases h
    | none =>
      cases h
      exact .inl hr
  | cons event events ih =>
    rw [consume] at h
    split at h
    · cases h
    · next st₁ hevent =>
      rcases ih h with hsame | ⟨event', hmem, hdone⟩
      · rcases consumeEvent_result hevent with hkept | hnew
        · exact .inl (hkept ▸ hsame)
        · exact .inr ⟨event, List.mem_cons_self, hnew ▸ hsame⟩
      · exact .inr ⟨event', List.mem_cons_of_mem _ hmem, hdone⟩

/-- **A turn returns what an event of its stream completes with.** -/
theorem runTurn_completion {engine : Engine V ω τ σ} {t : TurnArgs V} {s : EngineState V ω τ}
    {backend : Backend V ω} (hbackend : engine.registry t.backendName = some backend)
    (h : (runTurn engine t onEvent s).1 = .ok r) :
    ∃ event ∈ (backend.run (turnRequest backend.capabilities t) s.world).1.events,
      completion event = some r := by
  simp only [runTurn, hbackend, traced] at h
  split at h
  · cases exitBlock_ok h
  · next st hloop =>
    have hconclude := exitBlock_ok h
    unfold conclude at hconclude
    split at hconclude
    · cases hconclude
    · next result hresult =>
      cases hconclude
      rcases consume_result hloop hresult with hnone | hevent
      · cases hnone
      · exact hevent

end Turn

/-! ## Turns of a CLI -/

/-- What a turn of a CLI returns as its thread, given the one it was asked to resume. -/
structure CliReturns (py : PyLib) (command : String) (spawn : SpawnFn) (cli : Cli)
    (t : TurnArgs Json) (r : AgentRunResult Json) : Prop where
  kept : t.backendThreadId ≠ none → r.backendThreadId ≠ none
  truthy : (∀ h, t.backendThreadId = some h → h.truthy = true) →
    ∀ h, r.backendThreadId = some h → h.truthy = true
  claude : cli = .claude → ∃ h lines stop code, r.backendThreadId = some h ∧
    cli.spawned command spawn (turnRequest cli.capabilities t) = .started lines stop code ∧
    Claude.AnnouncedHandle py t.backendThreadId lines h

/-- Both CLIs resume: a request carries the handle of its turn. -/
theorem turnRequest_handle (py : PyLib) (command : String) (spawn : ω → SpawnFn × ω) (cli : Cli)
    (t : TurnArgs Json) : (turnRequest (cli.backend py command spawn).capabilities
      t).backendThreadId = t.backendThreadId := by
  cases cli <;> rfl

section Cli

variable {py : PyLib} {command : String} {spawn : ω → SpawnFn × ω} {cli : Cli}
  {engine : Engine Json ω τ σ} {t : TurnArgs Json} {s : EngineState Json ω τ}

theorem engineTurn_returns
    (hbackend : engine.registry t.backendName = some (cli.backend py command spawn))
    {r : AgentRunResult Json} (h : (engineTurn engine t s).1 = .ok r) :
    CliReturns py command (spawn s.world).1 cli t r := by
  obtain ⟨event, hmem, hevent⟩ := runTurn_completion hbackend h
  have hrequest := turnRequest_handle py command spawn cli t
  cases cli with
  | codex =>
    obtain ⟨hkept, htruthy⟩ := Codex.run_thread hmem hevent
    rw [hrequest] at hkept htruthy
    exact ⟨hkept, htruthy, nofun⟩
  | claude =>
    obtain ⟨handle, lines, stop, code, hhandle, hspawned, hannounced⟩ :=
      Claude.run_thread hmem hevent
    rw [hrequest] at hannounced
    refine ⟨fun _ => ?_, fun _ h hh => ?_, fun _ =>
      ⟨handle, lines, stop, code, hhandle, hspawned, hannounced⟩⟩
    · rw [hhandle]
      exact Option.some_ne_none handle
    · rw [hhandle] at hh
      exact Option.some.inj hh ▸ hannounced.truthy

end Cli

/-! ## From call to call -/

/-- The resume handle a store has for a key. -/
def storedHandle (m : MemoryStore V) (k : Key) : Option V :=
  (m.ledger.session k).bind (·.backendThreadId)

/-- The resume handle the reference has for a key. -/
def refHandle (past : List (Entry V ω τ)) (k : Key) : Option V :=
  (refSession past k).bind (·.backendThreadId)

theorem sessionFor_handle (past : List (Entry V ω τ)) (e : Entry V ω τ) :
    (sessionFor past e).backendThreadId = refHandle past e.call.key := by
  rw [sessionFor, refHandle]
  cases refSession past e.call.key <;> rfl

/-- The stored handle is the reference's. -/
theorem storedHandle_eq {past : List (Entry V ω τ)} {w : MemoryWorld V ω τ} (h : Reached past w)
    (k : Key) : storedHandle w.store k = refHandle past k := by
  have hview : w.store.ledger = refLedger past := h.store.2
  rw [storedHandle, hview]
  rfl

theorem history_calls (engine : Engine V ω τ σ) (calls : List (Draws × Call V))
    (w : MemoryWorld V ω τ) :
    (history engine calls w).map (fun e => (e.draws, e.call)) = calls := by
  induction calls generalizing w with
  | nil => rfl
  | cons call calls ih =>
    rw [history, List.map_cons, ih]

/-- A session's backend is the one its first call named. -/
theorem sessionFor_backendName {engine : Engine V ω τ σ} {calls : List (Draws × Call V)}
    {w : MemoryWorld V ω τ} {past rest : List (Entry V ω τ)} {e : Entry V ω τ}
    (h : history engine calls w = past ++ e :: rest) :
    ∃ first, calls.find? (fun call => call.2.key = e.call.key) = some first ∧
      (sessionFor past e).backendName = first.2.backendName := by
  have hcalls := history_calls engine calls w
  rw [h, List.map_append, List.map_cons] at hcalls
  rw [← hcalls, List.find?_append, List.find?_map, sessionFor, refSession]
  cases hfirst : past.find? (·.call.key = e.call.key) with
  | some first =>
    refine ⟨(first.draws, first.call), ?_, rfl⟩
    rw [Function.comp_def, hfirst]
    rfl
  | none =>
    refine ⟨(e.draws, e.call), ?_, rfl⟩
    rw [Function.comp_def, hfirst, List.find?_cons_of_pos (by exact decide_eq_true rfl)]
    rfl

/-- A call that succeeded ran a turn. -/
theorem Follows.runs_of_ok {engine : Engine V ω τ σ} {past : List (Entry V ω τ)}
    {e : Entry V ω τ} {r : AgentRunResult V} (h : Follows engine past e) (hr : e.outcome = .ok r) :
    Runs past e := by
  have hnew : ∀ mid, e.call.messageId = some mid → completed past e.call.key mid = false := by
    intro mid hmid
    rw [← Bool.not_eq_true]
    intro hdone
    have hrefused := h.duplicate mid hmid hdone
    rw [hr] at hrefused
    cases hrefused
  refine ⟨hnew, ?_⟩
  by_contra hrounds
  have hrefused := h.exceeded hnew (not_lt.mp hrounds)
  rw [hr] at hrefused
  cases hrefused

section Handles

variable {py : PyLib} {command : String} {spawn : ω → SpawnFn × ω} {cli : Cli}
  {engine : Engine Json ω τ σ} {s₀ : EngineState Json ω τ}
  {calls : List (Draws × Call Json)} {k : Key}

/-- The session of a key runs on a CLI, from its first call on. -/
def RunsOn (engine : Engine Json ω τ σ) (backend : Backend Json ω) (k : Key)
    (calls : List (Draws × Call Json)) : Prop :=
  ∀ first, calls.find? (fun call => call.2.key = k) = some first →
    engine.registry first.2.backendName = some backend

variable {past rest : List (Entry Json ω τ)} {e : Entry Json ω τ}

/-- **One call.** It leaves the handle of a key, or it is on the key, its turn succeeded, and the
handle is the one the turn returned. -/
theorem refHandle_step (hfresh : (calls.map (·.1.uuid)).Nodup)
    (hcli : RunsOn engine (cli.backend py command spawn) k calls)
    (hcalls : history engine calls ⟨.empty, s₀⟩ = past ++ e :: rest) :
    (refHandle (past ++ [e]) k = refHandle past k ∧ (e.call.key = k → ∀ r, e.outcome ≠ .ok r)) ∨
      ∃ r, e.call.key = k ∧ e.outcome = .ok r ∧ refHandle (past ++ [e]) k = r.backendThreadId ∧
        CliReturns py command (spawn e.before.engine.world).1 cli
          (e.call.turnArgs (sessionFor past e)) r := by
  obtain ⟨hfollows, -, -⟩ := history_follows engine (reached_nil s₀) hfresh hcalls
  rw [List.nil_append] at hfollows
  by_cases hkey : e.call.key = k
  · subst hkey
    have hafter : refHandle (past ++ [e]) e.call.key =
        (afterCall e (sessionFor past e)).backendThreadId := by
      rw [refHandle, refSession_snoc, if_pos rfl]
      rfl
    rw [afterCall] at hafter
    cases hout : e.outcome with
    | error exc =>
      rw [hout] at hafter
      exact .inl ⟨hafter.trans (sessionFor_handle past e), fun _ _ hr => by cases hr⟩
    | ok r =>
      rw [hout] at hafter
      refine .inr ⟨r, rfl, rfl, hafter, ?_⟩
      obtain ⟨first, hfirst, hname⟩ := sessionFor_backendName hcalls
      have hbackend := hcli first hfirst
      rw [← hname] at hbackend
      have hturn := (hfollows.runs (hfollows.runs_of_ok hout)).1
      rw [hout] at hturn
      exact engineTurn_returns (t := e.call.turnArgs (sessionFor past e)) hbackend
        (congrArg Prod.fst hturn).symm
  · refine .inl ⟨?_, fun h => absurd h hkey⟩
    rw [refHandle, refSession_snoc, if_neg (Ne.symm hkey)]
    rfl

/-- Along a run a handle that is there stays there. -/
theorem refHandle_stays (hfresh : (calls.map (·.1.uuid)).Nodup)
    (hcli : RunsOn engine (cli.backend py command spawn) k calls)
    {more : List (Entry Json ω τ)}
    (hcalls : history engine calls ⟨.empty, s₀⟩ = past ++ more ++ rest)
    (h : refHandle past k ≠ none) : refHandle (past ++ more) k ≠ none := by
  induction more using List.reverseRecOn generalizing rest with
  | nil => rwa [List.append_nil]
  | append_singleton more e ih =>
    rw [← List.append_assoc, List.append_assoc, List.singleton_append] at hcalls
    have hbefore := ih hcalls
    rw [← List.append_assoc]
    rcases refHandle_step hfresh hcli hcalls with ⟨hsame, -⟩ | ⟨r, rfl, -, hnew, hreturns⟩
    · rwa [hsame]
    · rw [hnew]
      refine hreturns.kept ?_
      rwa [← sessionFor_handle] at hbefore

/-- Along a run a handle can always be resumed. -/
theorem refHandle_truthy (hfresh : (calls.map (·.1.uuid)).Nodup)
    (hcli : RunsOn engine (cli.backend py command spawn) k calls)
    (hcalls : history engine calls ⟨.empty, s₀⟩ = past ++ rest) :
    ∀ h, refHandle past k = some h → h.truthy = true := by
  induction past using List.reverseRecOn generalizing rest with
  | nil =>
    intro h hh
    cases hh
  | append_singleton past e ih =>
    rw [List.append_assoc, List.singleton_append] at hcalls
    have hbefore := ih hcalls
    rcases refHandle_step hfresh hcli hcalls with ⟨hsame, -⟩ | ⟨r, rfl, -, hnew, hreturns⟩
    · rwa [hsame]
    · rw [hnew]
      refine hreturns.truthy ?_
      rwa [← sessionFor_handle] at hbefore

end Handles

/-- What a call on a key does with the resume handle of the session there: it starts its turn, if it
runs one, with exactly the stored handle, which the CLI takes up; and a Claude turn that succeeds
leaves the handle it announced last, or was resumed with. -/
structure HandleResumed (py : PyLib) (command : String) (spawn : ω → SpawnFn × ω) (cli : Cli)
    (k : Key) (e : Entry Json ω τ) : Prop where
  sent : ∃ requests, e.after.engine.sent = e.before.engine.sent ++ requests ∧
    ∀ sent ∈ requests, sent.request.backendThreadId = storedHandle e.before.store k
  truthy : ∀ h, storedHandle e.before.store k = some h → h.truthy = true
  claude : cli = .claude → ∀ r, e.outcome = .ok r →
    ∃ h sent lines stop code, storedHandle e.after.store k = some h ∧
      e.after.engine.sent = e.before.engine.sent ++ [sent] ∧
      cli.spawned command (spawn e.before.engine.world).1 sent.request =
        .started lines stop code ∧
      Claude.AnnouncedHandle py (storedHandle e.before.store k) lines h

/-- **A session keeps its resume handle.** Over a fresh memory store, with a CLI behind the session
of a key, and whatever its processes print and exit with: once the handle is there, it is there
after every later call, and every call on the key resumes it. -/
theorem handle_resumed (py : PyLib) (command : String) (spawn : ω → SpawnFn × ω) (cli : Cli)
    (engine : Engine Json ω τ σ) (s₀ : EngineState Json ω τ) (calls : List (Draws × Call Json))
    (hfresh : (calls.map (·.1.uuid)).Nodup) (k : Key)
    (hcli : RunsOn engine (cli.backend py command spawn) k calls)
    (past rest : List (Entry Json ω τ)) (e : Entry Json ω τ)
    (hcalls : history engine calls ⟨.empty, s₀⟩ = past ++ e :: rest) :
    (storedHandle e.after.store k ≠ none → ∀ e' ∈ rest, storedHandle e'.after.store k ≠ none) ∧
      (e.call.key = k → HandleResumed py command spawn cli k e) := by
  obtain ⟨hfollows, hbefore, hafter⟩ := history_follows engine (reached_nil s₀) hfresh hcalls
  rw [List.nil_append] at hfollows hbefore hafter
  have hstep := refHandle_step hfresh hcli hcalls
  rw [storedHandle_eq hafter]
  constructor
  · intro hsome e' he'
    obtain ⟨middle, later, rfl⟩ := List.append_of_mem he'
    have hsplit : history engine calls ⟨.empty, s₀⟩ =
        (past ++ [e] ++ middle) ++ e' :: later := by
      rw [hcalls, List.append_assoc, List.append_assoc]
      rfl
    obtain ⟨-, -, hlater⟩ := history_follows engine (reached_nil s₀) hfresh hsplit
    rw [List.nil_append] at hlater
    rw [storedHandle_eq hlater, List.append_assoc]
    have hstays : history engine calls ⟨.empty, s₀⟩ =
        (past ++ [e]) ++ (middle ++ [e']) ++ later := by
      rw [hsplit]
      simp only [List.append_assoc, List.cons_append, List.nil_append]
    exact refHandle_stays hfresh hcli hstays hsome
  · intro hkey
    subst hkey
    obtain ⟨first, hfirst, hname⟩ := sessionFor_backendName hcalls
    have hbackend := hcli first hfirst
    rw [← hname] at hbackend
    have hrequests : turnRequests engine (e.call.turnArgs (sessionFor past e)) =
        [⟨(sessionFor past e).backendName,
          turnRequest cli.capabilities (e.call.turnArgs (sessionFor past e))⟩] := by
      rw [turnRequests, show (e.call.turnArgs (sessionFor past e)).backendName =
        (sessionFor past e).backendName from rfl, hbackend]
      rfl
    have hhandle : (turnRequest cli.capabilities
        (e.call.turnArgs (sessionFor past e))).backendThreadId =
          refHandle past e.call.key :=
      (turnRequest_handle py command spawn cli _).trans (sessionFor_handle past e)
    refine ⟨?_, ?_, ?_⟩
    · rw [storedHandle_eq hbefore]
      by_cases hruns : Runs past e
      · refine ⟨_, (hfollows.runs hruns).2, fun sent hsent => ?_⟩
        rw [hrequests] at hsent
        rw [List.mem_singleton.mp hsent, hhandle]
      · refine ⟨[], ?_, fun sent hsent => absurd hsent List.not_mem_nil⟩
        rw [hfollows.idle hruns, List.append_nil]
    · rw [storedHandle_eq hbefore]
      exact refHandle_truthy hfresh hcli hcalls
    · intro hclaude r hr
      rcases hstep with ⟨-, hnone⟩ | ⟨r', -, hr', hnew, hreturns⟩
      · exact absurd hr (hnone rfl r)
      · obtain ⟨h, lines, stop, code, hh, hspawned, hannounced⟩ := hreturns.claude hclaude
        refine ⟨h, ⟨(sessionFor past e).backendName,
          turnRequest cli.capabilities (e.call.turnArgs (sessionFor past e))⟩, lines, stop, code,
          ?_, ?_, hspawned, ?_⟩
        · rw [storedHandle_eq hafter, hnew, hh]
        · rw [(hfollows.runs (hfollows.runs_of_ok hr)).2, hrequests]
        · rw [storedHandle_eq hbefore, ← sessionFor_handle]
          exact hannounced

/-- The line in which a session `s1` starts. -/
def initLine : String := "\x7b\"type\":\"system\",\"subtype\":\"init\",\"session_id\":\"s1\"\x7d"

/-- The line in which a turn of it succeeds. -/
def resultLine : String := "\x7b\"type\":\"result\",\"result\":\"ok\",\"session_id\":\"s1\"\x7d"

/-- A decoder of these two lines. -/
def decodeTurn : PyLib where
  loads line :=
    if line = initLine then
      .ok (.obj [("type", .str "system"), ("subtype", .str "init"), ("session_id", .str "s1")])
    else if line = resultLine then
      .ok (.obj [("type", .str "result"), ("result", .str "ok"), ("session_id", .str "s1")])
    else .error ⟨.jsonDecodeError, "Expecting value"⟩
  intOfStr _ := .error ⟨.valueError, ""⟩
  repr _ := ""
  str _ := ""

/-- Processes that print the lines of the world, turn by turn. -/
def printNext : List (List String) → SpawnFn × List (List String)
  | [] => (fun _ _ _ _ => .started [] none 1, [])
  | lines :: later => (fun _ _ _ _ => .started lines none 0, later)

/-- An engine with Claude under every name. -/
def claudeEngine : Engine Json (List (List String)) Unit Unit :=
  ⟨fun _ => some (Cli.claude.backend decodeTurn "claude" printNext), noOpTracer⟩

/-- A message on one thread. -/
def threadCall (text : String) : Call Json :=
  { workspaceId := "w", channel := "feishu", externalThreadKey := "t", text, cwd := "/srv"
    env := ∅, backendName := "claude" }

/-- A turn that announces a session, and one that resumes it. -/
theorem handle_resumed_twice :
    ∃ (past : List (Entry Json (List (List String)) Unit)) (e : Entry Json _ Unit),
      history claudeEngine [(⟨"u1", .finite 1⟩, threadCall "hi"), (⟨"u2", .finite 2⟩, threadCall "yo")]
          ⟨.empty, ⟨[[initLine, resultLine], [resultLine]], (), []⟩⟩ = past ++ [e] ∧
        storedHandle e.before.store (threadCall "yo").key = some (.str "s1") ∧
        (∃ r, e.outcome = .ok r) ∧
        HandleResumed decodeTurn "claude" printNext .claude (threadCall "yo").key e := by
  refine ⟨[_], _, rfl, rfl, ⟨_, rfl⟩, ?_⟩
  exact (handle_resumed decodeTurn "claude" printNext .claude claudeEngine
    ⟨[[initLine, resultLine], [resultLine]], (), []⟩
    [(⟨"u1", .finite 1⟩, threadCall "hi"), (⟨"u2", .finite 2⟩, threadCall "yo")] (by decide)
    (threadCall "yo").key (fun _ _ => rfl) [_] [] _ rfl).2 rfl

end ClawEngine.Orchestration
