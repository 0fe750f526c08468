import ClawEngine.Backends.Codex
import ClawEngine.Backends.Claude

/-!
# Backend event streams close properly

The runtime contract asks every backend for a stream with exactly one terminal event, the last
one. The adapters keep it as long as nothing outside their `except` clauses raises. This module
says when that is, from the lines alone.

A **line reader** classifies a line: it passes, it ends the turn, or it lets an exception escape.
`Reads` relates an adapter's line function to a reader, one line at a time; `drive_proper_iff`
carries it over the whole loop: the stream is proper exactly when a line that ends the turn comes
before any line that escapes, or the lines run out and what the iterator raises is caught.

The classification of a codex line needs no context. That of a claude line depends on the session
id in force, since a `result` line looks at its `usage` only when its session id agrees.
-/

set_option autoImplicit false

namespace ClawEngine.Backends

open ClawEngine.Core ClawEngine.Runtime

/-- What the contract asks of an exhausted run: nothing raised, one terminal event, in last
position, with fields that match its kind. -/
def Proper (stream : EventStream Json PyError) : Prop :=
  stream.raised = none ∧ assertValidEventStream stream.events = .ok ()

/-- What a line does to the turn. -/
inductive Verdict
  | passes | ends | escapes
  deriving DecidableEq, Repr

/-- An exception seen at a line: caught, it ends the turn with an error event. -/
def Verdict.ofException (e : PyError) : Verdict := if Caught e then .ends else .escapes

/-- The classification of lines, in a context that lines change. -/
structure LineReader (T : Type) where
  verdict : T → String → Verdict
  next : T → String → T

/-- No exception escapes the loop over these lines and this end of the iterator. -/
def LineReader.Undisturbed {T : Type} (r : LineReader T) (stop : Option PyError) :
    T → List String → Prop
  | _, [] => ∀ e, stop = some e → Caught e
  | t, line :: lines =>
    match r.verdict t line with
    | .passes => r.Undisturbed stop (r.next t line) lines
    | .ends => True
    | .escapes => False

/-- Events none of which is terminal. -/
def Open (events : List (AgentEvent Json)) : Prop := ∀ e ∈ events, e.isTerminal = false

/-- Events of which exactly the last is terminal, and closes the stream. -/
def Closed (events : List (AgentEvent Json)) : Prop :=
  ∃ before last, events = before ++ [last] ∧ Open before ∧ last.Closes

/-- An adapter's line function does what the reader says of the line. -/
def Reads {S T : Type} (onLine : S → String → LineResult S) (r : LineReader T) (view : S → T) :
    Prop :=
  ∀ s line,
    match onLine s line with
    | .next events s' =>
      r.verdict (view s) line = .passes ∧ view s' = r.next (view s) line ∧ Open events
    | .done events => r.verdict (view s) line = .ends ∧ Closed events
    | .raised events e => r.verdict (view s) line = .ofException e ∧ Open events

theorem open_nil : Open [] := fun _ h => absurd h List.not_mem_nil

theorem open_cons {e : AgentEvent Json} {events : List (AgentEvent Json)}
    (he : e.isTerminal = false) (h : Open events) : Open (e :: events) := by
  intro e' hmem
  rcases List.mem_cons.mp hmem with rfl | hmem
  · exact he
  · exact h e' hmem

theorem closed_singleton {e : AgentEvent Json} (h : e.Closes) : Closed [e] :=
  ⟨[], e, rfl, open_nil, h⟩

theorem closed_append {before events : List (AgentEvent Json)} (hb : Open before) :
    Closed (before ++ events) ↔ Closed events := by
  constructor
  · rintro ⟨init, last, heq, hinit, hlast⟩
    rcases List.append_eq_append_iff.mp heq with ⟨mid, rfl, rfl⟩ | ⟨mid, rfl, hmid⟩
    · exact ⟨mid, last, rfl, fun e he => hinit e (List.mem_append_right _ he), hlast⟩
    · -- the closing event would be among the open ones
      have hterm := hlast.isTerminal
      rcases List.append_eq_singleton_iff.mp hmid.symm with ⟨rfl, hev⟩ | ⟨hmem, rfl⟩
      · exact ⟨[], last, hev, open_nil, hlast⟩
      · have := hb last (by rw [hmem]; exact List.mem_append_right _ (List.mem_singleton_self _))
        rw [hterm] at this
        cases this
  · rintro ⟨init, last, rfl, hinit, hlast⟩
    refine ⟨before ++ init, last, (List.append_assoc _ _ _).symm, ?_, hlast⟩
    intro e he
    rcases List.mem_append.mp he with he | he
    · exact hb e he
    · exact hinit e he

theorem proper_iff {stream : EventStream Json PyError} :
    Proper stream ↔ stream.raised = none ∧ Closed stream.events := by
  unfold Proper
  rw [assertValidEventStream_ok]
  rfl

theorem proper_yieldThen {events : List (AgentEvent Json)} (h : Open events)
    (rest : EventStream Json PyError) : Proper (yieldThen events rest) ↔ Proper rest := by
  simp only [proper_iff, yieldThen, closed_append h]

theorem err_closes (kind : AgentErrorKind) (message : String) (retriable : Bool)
    (raw : Option Json) : (err kind message retriable raw).Closes :=
  Or.inr ⟨rfl, rfl, rfl⟩

theorem closed_err (kind : AgentErrorKind) (message : String) (retriable : Bool)
    (raw : Option Json) : Closed [err kind message retriable raw] :=
  closed_singleton (err_closes kind message retriable raw)

/-- The `except` clauses close the stream exactly for the exceptions they name. -/
theorem proper_handleException (cli : String) (timeoutS : Int) (e : PyError) :
    Proper (handleException cli timeoutS e) ↔ Caught e := by
  unfold handleException Caught
  by_cases ht : e.kind = .timeoutExpired
  · simp only [ht, if_true, true_or, iff_true]
    exact proper_iff.mpr ⟨rfl, closed_err ..⟩
  · rw [if_neg ht]
    by_cases hc : e.kind = .osError ∨ e.kind = .subprocessError
    · rw [if_pos hc]
      exact iff_of_true (proper_iff.mpr ⟨rfl, closed_err ..⟩) (Or.inr hc)
    · rw [if_neg hc]
      refine iff_of_false (fun h => ?_) (not_or.mpr ⟨ht, hc⟩)
      cases h.1

/-- **The loop closes the stream exactly when nothing escapes it.** -/
theorem driveLines_proper_iff {S T : Type} {cli : String} {timeoutS : Int}
    {onLine : S → String → LineResult S} {finish : S → Int → List (AgentEvent Json)}
    {r : LineReader T} {view : S → T} (reads : Reads onLine r view)
    (finishes : ∀ s code, Closed (finish s code)) (stop : Option PyError) (code : Int) :
    ∀ (lines : List String) (s : S),
      Proper (driveLines cli timeoutS onLine finish stop code s lines) ↔
        r.Undisturbed stop (view s) lines
  | [], s => by
    cases stop with
    | none =>
      refine iff_of_true (proper_iff.mpr ⟨rfl, finishes s code⟩) ?_
      intro e he
      cases he
    | some e =>
      simp only [driveLines, LineReader.Undisturbed, Option.some.injEq, forall_eq',
        proper_handleException]
  | line :: lines, s => by
    have h := reads s line
    unfold driveLines LineReader.Undisturbed
    cases hl : onLine s line with
    | next events s' =>
      obtain ⟨hv, hview, hopen⟩ : r.verdict (view s) line = .passes ∧
          view s' = r.next (view s) line ∧ Open events := by simpa only [hl] using h
      simp only [hv, proper_yieldThen hopen, ← hview]
      exact driveLines_proper_iff reads finishes stop code lines s'
    | done events =>
      obtain ⟨hv, hclosed⟩ : r.verdict (view s) line = .ends ∧ Closed events := by
        simpa only [hl] using h
      simp only [hv, iff_true]
      exact proper_iff.mpr ⟨rfl, hclosed⟩
    | raised events e =>
      obtain ⟨hv, hopen⟩ : r.verdict (view s) line = .ofException e ∧ Open events := by
        simpa only [hl] using h
      simp only [hv, proper_yieldThen hopen, proper_handleException, Verdict.ofException]
      by_cases hc : Caught e <;> simp only [hc, if_true, if_false]

/-- The start of a run: the process was spawned and nothing escapes the loop over its output. -/
def LineReader.Starts {T : Type} (r : LineReader T) (t : T) (spawned : SpawnOutcome) : Prop :=
  ∃ lines stop code, spawned = .started lines stop code ∧ r.Undisturbed stop t lines

theorem drive_proper_iff {S T : Type} {cli : String} {timeoutS : Int}
    {onLine : S → String → LineResult S} {finish : S → Int → List (AgentEvent Json)}
    {r : LineReader T} {view : S → T} (reads : Reads onLine r view)
    (finishes : ∀ s code, Closed (finish s code)) (s : S) (spawned : SpawnOutcome) :
    Proper (drive cli timeoutS onLine finish s spawned) ↔ r.Starts (view s) spawned := by
  cases spawned with
  | failed e =>
    refine iff_of_false (fun h => ?_) ?_
    · cases h.1
    · rintro ⟨lines, stop, code, h, _⟩
      cases h
  | started lines stop code =>
    rw [drive, driveLines_proper_iff reads finishes stop code lines s]
    constructor
    · intro h
      exact ⟨lines, stop, code, rfl, h⟩
    · rintro ⟨_, _, _, h, hu⟩
      cases h
      exact hu

/-- A value that is one text is no other. -/
theorem isStr_other {v : Json} {text other : String} (h : v.isStr text = true)
    (hne : text ≠ other) : v.isStr other = false := by
  cases v with
  | str s =>
    obtain rfl := beq_iff_eq.mp h
    exact beq_eq_false_iff_ne.mpr hne
  | _ => cases h

/-! ## codex -/

namespace Codex

/-- A completed item that breaks the schema. -/
def itemOffends (members : List (String × Json)) : Bool :=
  match (Json.get members "item").members? with
  | none => true
  | some item =>
    !(Json.get item "type").truthy ||
      ((Json.get item "type").isStr "tool_call" && !(Json.get item "name").truthy) ||
      ((Json.get item "type").isStr "agent_message" && !Json.has item "text")

/-- A decoded object that breaks the schema. -/
def offends (members : List (String × Json)) : Bool :=
  let etype := Json.get members "type"
  if etype.isStr "thread.started" then !(Json.get members "thread_id").truthy
  else if etype.isStr "item.completed" then itemOffends members
  else false

/-- The classification of a codex line. -/
def reader (py : PyLib) : LineReader Unit where
  verdict _ raw :=
    if isBlank raw then .passes
    else
      match py.loads raw with
      | .error e => if e.kind = .jsonDecodeError then .ends else .ofException e
      | .ok (.obj members) => if offends members then .ends else .passes
      | .ok _ => .escapes
  next _ _ := ()

theorem isStr_tool_call {v : Json} (h : v.isStr "tool_call" = true) :
    v.isStr "agent_message" = false :=
  isStr_other h (by decide)

private theorem onItem_reads (s : State) (members : List (String × Json)) :
    match onItem s members with
    | .next events _ => itemOffends members = false ∧ Open events
    | .done events => itemOffends members = true ∧ Closed events
    | .raised _ _ => False := by
  unfold onItem itemOffends
  cases hitem : (Json.get members "item").members? with
  | none => exact ⟨rfl, closed_err ..⟩
  | some item =>
    dsimp only
    cases htype : (Json.get item "type").truthy with
    | false => exact ⟨rfl, closed_err ..⟩
    | true =>
      cases htool : (Json.get item "type").isStr "tool_call" with
      | true =>
        have hmsg := isStr_tool_call htool
        cases hname : (Json.get item "name").truthy with
        | false => exact ⟨rfl, closed_err ..⟩
        | true =>
          simp only [hmsg, Bool.not_true, Bool.and_false, Bool.or_false, Bool.false_and,
            if_true, Bool.false_eq_true, if_false]
          exact ⟨trivial, open_cons rfl open_nil⟩
      | false =>
        cases hmsg : (Json.get item "type").isStr "agent_message" with
        | true =>
          cases htext : Json.has item "text" with
          | false => exact ⟨rfl, closed_err ..⟩
          | true => exact ⟨rfl, open_cons rfl open_nil⟩
        | false => exact ⟨rfl, open_nil⟩

private theorem onObject_reads (s : State) (members : List (String × Json)) :
    match onObject s members with
    | .next events _ => offends members = false ∧ Open events
    | .done events => offends members = true ∧ Closed events
    | .raised _ _ => False := by
  unfold onObject offends
  dsimp only
  cases hstarted : (Json.get members "type").isStr "thread.started" with
  | true =>
    cases htid : (Json.get members "thread_id").truthy with
    | false => exact ⟨rfl, closed_err ..⟩
    | true => exact ⟨rfl, open_cons rfl open_nil⟩
  | false =>
    cases hitem : (Json.get members "type").isStr "item.completed" with
    | true => exact onItem_reads s members
    | false => exact ⟨rfl, open_nil⟩

theorem onLine_reads (py : PyLib) : Reads (onLine py) (reader py) fun _ => () := by
  intro s raw
  unfold onLine reader
  dsimp only
  cases hblank : isBlank raw with
  | true => exact ⟨rfl, rfl, open_nil⟩
  | false =>
    simp only [Bool.false_eq_true, if_false]
    cases hloads : py.loads raw with
    | error e =>
      by_cases hk : e.kind = .jsonDecodeError
      · simp only [hk, if_true]
        exact ⟨trivial, closed_err ..⟩
      · simp only [hk, if_false]
        exact ⟨trivial, open_nil⟩
    | ok v =>
      cases v with
      | obj members =>
        have h := onObject_reads s members
        dsimp only
        cases hobj : onObject s members with
        | next events s' =>
          obtain ⟨hoff, hopen⟩ : offends members = false ∧ Open events := by
            simpa only [hobj] using h
          simp only [hoff, Bool.false_eq_true, if_false]
          exact ⟨trivial, trivial, hopen⟩
        | done events =>
          obtain ⟨hoff, hclosed⟩ : offends members = true ∧ Closed events := by
            simpa only [hobj] using h
          simp only [hoff, if_true]
          exact ⟨trivial, hclosed⟩
        | raised events e => simp only [hobj] at h
      | _ => exact ⟨rfl, open_nil⟩

theorem finish_closed (s : State) (code : Int) : Closed (finish s code) := by
  unfold finish
  by_cases h : code ≠ 0
  · rw [if_pos h]
    exact closed_err ..
  · rw [if_neg h]
    exact closed_singleton (Or.inl ⟨rfl, rfl, rfl⟩)

/-- **When a codex stream is proper.** -/
theorem run_proper_iff (py : PyLib) (command : String) (spawn : SpawnFn)
    (req : AgentRunRequest Json) :
    Proper (run py command spawn req) ↔
      (reader py).Starts () (spawn (buildArgv command req) req.cwd req.env req.timeoutS) :=
  drive_proper_iff (onLine_reads py) finish_closed _ _

end Codex

/-! ## claude -/

namespace Claude

/-- A content block that breaks the schema. -/
def blockOffends (block : Json) : Bool :=
  match block.members? with
  | none => false
  | some members =>
    ((Json.get members "type").isStr "text" && !Json.has members "text") ||
      ((Json.get members "type").isStr "tool_use" && !(Json.get members "name").truthy)

/-- The content blocks of an assistant line. -/
def content? (members : List (String × Json)) : Option (List Json) :=
  match (Json.get members "message").members? with
  | some message => (Json.get message "content").items?
  | none => none

/-- An assistant line that breaks the schema. -/
def assistantOffends (members : List (String × Json)) : Bool :=
  match content? members with
  | none => true
  | some blocks => blocks.any blockOffends

/-- The line announces a session. -/
def isInit (members : List (String × Json)) : Bool :=
  (Json.get members "type").isStr "system" && (Json.get members "subtype").isStr "init"

/-- A `result` line that completes a turn whose session id in force is `sid`. -/
def completes (sid : Option Json) (members : List (String × Json)) : Bool :=
  !(Json.get members "is_error").truthy && Json.has members "result" &&
    (Json.get members "session_id").truthy && !mismatch sid (Json.get members "session_id")

/-- The classification of a decoded object under the session id in force. -/
def objectVerdict (py : PyLib) (sid : Option Json) (members : List (String × Json)) : Verdict :=
  let etype := Json.get members "type"
  if isInit members then
    if (Json.get members "session_id").truthy then .passes else .ends
  else if etype.isStr "assistant" then
    if assistantOffends members then .ends else .passes
  else if etype.isStr "result" then
    if completes sid members then
      match tokenUsage py ((Json.get members "usage").orElse (.obj [])) with
      | .error e => .ofException e
      | .ok _ => .ends
    else .ends
  else .passes

/-- The classification of a claude line under the session id in force. -/
def reader (py : PyLib) : LineReader (Option Json) where
  verdict sid raw :=
    if isBlank raw then .passes
    else
      match py.loads raw with
      | .error e => if e.kind = .jsonDecodeError then .ends else .ofException e
      | .ok (.obj members) => objectVerdict py sid members
      | .ok _ => .escapes
  next sid raw :=
    if isBlank raw then sid
    else
      match py.loads raw with
      | .ok (.obj members) => if isInit members then some (Json.get members "session_id") else sid
      | _ => sid

theorem isStr_text {v : Json} (h : v.isStr "text" = true) : v.isStr "tool_use" = false :=
  isStr_other h (by decide)

/-- The loop over the blocks ends the turn at the first block that breaks the schema. It keeps the
session id. -/
private theorem onBlocks_reads (evt : Json) : ∀ (blocks : List Json) (s : State),
    match onBlocks evt s blocks with
    | .next events s' =>
      blocks.any blockOffends = false ∧ s'.sessionId = s.sessionId ∧ Open events
    | .done events => blocks.any blockOffends = true ∧ Closed events
    | .raised _ _ => False
  | [], s => ⟨rfl, rfl, open_nil⟩
  | block :: blocks, s => by
    -- what the rest of the blocks does after an event of this one
    have emit : ∀ (s₁ : State) (event : AgentEvent Json), s₁.sessionId = s.sessionId →
        event.isTerminal = false → blockOffends block = false →
        match (match onBlocks evt s₁ blocks with
          | .next events s' => LineResult.next (event :: events) s'
          | .done events => .done (event :: events)
          | .raised events e => .raised (event :: events) e) with
        | .next events s' =>
          (block :: blocks).any blockOffends = false ∧ s'.sessionId = s.sessionId ∧ Open events
        | .done events => (block :: blocks).any blockOffends = true ∧ Closed events
        | .raised _ _ => False := by
      intro s₁ event hs hevent hblock
      have ih := onBlocks_reads evt blocks s₁
      rw [List.any_cons, hblock, Bool.false_or]
      cases hrest : onBlocks evt s₁ blocks with
      | next events s' =>
        obtain ⟨hany, hsid, hopen⟩ : blocks.any blockOffends = false ∧
            s'.sessionId = s₁.sessionId ∧ Open events := by simpa only [hrest] using ih
        exact ⟨hany, hsid.trans hs, open_cons hevent hopen⟩
      | done events =>
        obtain ⟨hany, hclosed⟩ : blocks.any blockOffends = true ∧ Closed events := by
          simpa only [hrest] using ih
        exact ⟨hany, (closed_append (open_cons hevent open_nil)).mpr hclosed⟩
      | raised events e => simp only [hrest] at ih
    unfold onBlocks
    cases hmem : block.members? with
    | none =>
      have hblock : blockOffends block = false := by simp only [blockOffends, hmem]
      rw [List.any_cons, hblock, Bool.false_or]
      exact onBlocks_reads evt blocks s
    | some members =>
      dsimp only
      cases htext : (Json.get members "type").isStr "text" with
      | true =>
        have htool := isStr_text htext
        cases hhas : Json.has members "text" with
        | false =>
          refine ⟨?_, closed_err ..⟩
          simp only [List.any_cons, blockOffends, hmem, htext, hhas, Bool.not_false,
            Bool.and_self, Bool.true_or]
        | true =>
          refine emit { s with finalText := _ } _ rfl rfl ?_
          simp only [blockOffends, hmem, hhas, htool, Bool.not_true, Bool.and_false,
            Bool.false_and, Bool.or_self]
      | false =>
        cases htool : (Json.get members "type").isStr "tool_use" with
        | true =>
          cases hname : (Json.get members "name").truthy with
          | false =>
            refine ⟨?_, closed_err ..⟩
            simp only [List.any_cons, blockOffends, hmem, htool, hname, Bool.not_false,
              Bool.and_self, Bool.or_true, Bool.true_or]
          | true =>
            refine emit s _ rfl rfl ?_
            simp only [blockOffends, hmem, htext, hname, Bool.not_true, Bool.and_false,
              Bool.false_and, Bool.or_self]
        | false =>
          have hblock : blockOffends block = false := by
            simp only [blockOffends, hmem, htext, htool, Bool.false_and, Bool.or_self]
          rw [List.any_cons, hblock, Bool.false_or]
          exact onBlocks_reads evt blocks s

theorem onAssistant_eq (s : State) (members : List (String × Json)) : onAssistant s members =
    match content? members with
    | none => .done [protocolError "assistant 缺少 message.content" (Json.obj members)]
    | some blocks => onBlocks (Json.obj members) s blocks := rfl

private theorem onAssistant_reads (s : State) (members : List (String × Json)) :
    match onAssistant s members with
    | .next events s' =>
      assistantOffends members = false ∧ s'.sessionId = s.sessionId ∧ Open events
    | .done events => assistantOffends members = true ∧ Closed events
    | .raised _ _ => False := by
  rw [onAssistant_eq, assistantOffends]
  cases content? members with
  | none => exact ⟨rfl, closed_err ..⟩
  | some blocks => exact onBlocks_reads (Json.obj members) blocks s

/-- A `result` line ends the turn, unless it completes it and its usage cannot be counted. -/
private theorem onResult_reads (py : PyLib) (s : State) (members : List (String × Json)) :
    match onResult py s members with
    | .next _ _ => False
    | .done events =>
      (completes s.sessionId members = true →
        ∃ usage, tokenUsage py ((Json.get members "usage").orElse (.obj [])) = .ok usage) ∧
        Closed events
    | .raised events e =>
      completes s.sessionId members = true ∧
        tokenUsage py ((Json.get members "usage").orElse (.obj [])) = .error e ∧
        Open events := by
  unfold onResult completes
  dsimp only
  cases herr : (Json.get members "is_error").truthy with
  | true => exact ⟨fun h => absurd h Bool.false_ne_true, closed_err ..⟩
  | false =>
    cases hres : Json.has members "result" with
    | false => exact ⟨fun h => absurd h Bool.false_ne_true, closed_err ..⟩
    | true =>
      cases hsid : (Json.get members "session_id").truthy with
      | false => exact ⟨fun h => absurd h Bool.false_ne_true, closed_err ..⟩
      | true =>
        cases hmis : mismatch s.sessionId (Json.get members "session_id") with
        | true => exact ⟨fun h => absurd h Bool.false_ne_true, closed_err ..⟩
        | false =>
          cases husage : tokenUsage py ((Json.get members "usage").orElse (.obj [])) with
          | error e => exact ⟨rfl, rfl, open_nil⟩
          | ok usage =>
            exact ⟨fun _ => ⟨usage, rfl⟩, closed_singleton (Or.inl ⟨rfl, rfl, rfl⟩)⟩

private theorem onObject_reads (py : PyLib) (s : State) (members : List (String × Json)) :
    match onObject py s members with
    | .next events s' =>
      objectVerdict py s.sessionId members = .passes ∧
        s'.sessionId = (if isInit members then some (Json.get members "session_id")
          else s.sessionId) ∧ Open events
    | .done events => objectVerdict py s.sessionId members = .ends ∧ Closed events
    | .raised events e =>
      objectVerdict py s.sessionId members = .ofException e ∧ Open events := by
  have hobj : onObject py s members =
      if isInit members then onInit s members
      else if (Json.get members "type").isStr "assistant" then onAssistant s members
      else if (Json.get members "type").isStr "result" then onResult py s members
      else .next [] s := rfl
  rw [hobj]
  unfold objectVerdict
  dsimp only
  cases hinit : isInit members with
  | true =>
    unfold onInit
    dsimp only
    cases hsid : (Json.get members "session_id").truthy with
    | false => exact ⟨rfl, closed_err ..⟩
    | true => exact ⟨rfl, rfl, open_cons rfl open_nil⟩
  | false =>
    simp only [Bool.false_eq_true, if_false]
    cases hassist : (Json.get members "type").isStr "assistant" with
    | true =>
      have h := onAssistant_reads s members
      simp only [if_true]
      cases hrun : onAssistant s members with
      | next events s' =>
        obtain ⟨hoff, hsid, hopen⟩ : assistantOffends members = false ∧
            s'.sessionId = s.sessionId ∧ Open events := by simpa only [hrun] using h
        rw [hoff]
        exact ⟨rfl, hsid, hopen⟩
      | done events =>
        obtain ⟨hoff, hclosed⟩ : assistantOffends members = true ∧ Closed events := by
          simpa only [hrun] using h
        rw [hoff]
        exact ⟨rfl, hclosed⟩
      | raised events e => simp only [hrun] at h
    | false =>
      simp only [Bool.false_eq_true, if_false]
      cases hresult : (Json.get members "type").isStr "result" with
      | true =>
        have h := onResult_reads py s members
        simp only [if_true]
        cases hrun : onResult py s members with
        | next events s' => simp only [hrun] at h
        | done events =>
          obtain ⟨husage, hclosed⟩ : (completes s.sessionId members = true →
              ∃ usage, tokenUsage py ((Json.get members "usage").orElse (.obj [])) = .ok usage) ∧
              Closed events := by simpa only [hrun] using h
          refine ⟨?_, hclosed⟩
          cases hcomp : completes s.sessionId members with
          | true =>
            obtain ⟨usage, hu⟩ := husage hcomp
            simp only [hu, if_true]
          | false => rfl
        | raised events e =>
          obtain ⟨hcomp, husage, hopen⟩ : completes s.sessionId members = true ∧
              tokenUsage py ((Json.get members "usage").orElse (.obj [])) = .error e ∧
              Open events := by simpa only [hrun] using h
          refine ⟨?_, hopen⟩
          simp only [hcomp, husage, if_true]
      | false => exact ⟨rfl, rfl, open_nil⟩

theorem onLine_reads (py : PyLib) : Reads (onLine py) (reader py) State.sessionId := by
  intro s raw
  unfold onLine reader
  dsimp only
  cases hblank : isBlank raw with
  | true => exact ⟨rfl, rfl, open_nil⟩
  | false =>
    simp only [Bool.false_eq_true, if_false]
    cases hloads : py.loads raw with
    | error e =>
      by_cases hk : e.kind = .jsonDecodeError
      · simp only [hk, if_true]
        exact ⟨trivial, closed_err ..⟩
      · simp only [hk, if_false]
        exact ⟨trivial, open_nil⟩
    | ok v =>
      cases v with
      | obj members =>
        have h := onObject_reads py s members
        dsimp only
        cases hobj : onObject py s members with
        | next events s' => simpa only [hobj] using h
        | done events => simpa only [hobj] using h
        | raised events e => simpa only [hobj] using h
      | _ => exact ⟨rfl, open_nil⟩

theorem finish_closed (s : State) (code : Int) : Closed (finish s code) := by
  unfold finish
  by_cases h : code ≠ 0
  · rw [if_pos h]
    exact closed_err ..
  · rw [if_neg h]
    exact closed_err ..

/-- **When a claude stream is proper.** -/
theorem run_proper_iff (py : PyLib) (command : String) (spawn : SpawnFn)
    (req : AgentRunRequest Json) :
    Proper (run py command spawn req) ↔
      (reader py).Starts req.backendThreadId
        (spawn (buildArgv command req) req.cwd req.env req.timeoutS) :=
  drive_proper_iff (onLine_reads py) finish_closed _ _

end Claude

/-! ## Both adapters -/

/-- **A backend's stream closes properly exactly when nothing escapes its loop**: the process was
spawned, and either a line that ends the turn comes before every line that raises, or no line does
either and the iterator stops or raises an exception the `except` clauses name. -/
theorem streams_proper_iff (py : PyLib) (command : String) (spawn : SpawnFn)
    (req : AgentRunRequest Json) :
    (Proper (Codex.run py command spawn req) ↔
      (Codex.reader py).Starts ()
        (spawn (Codex.buildArgv command req) req.cwd req.env req.timeoutS)) ∧
    (Proper (Claude.run py command spawn req) ↔
      (Claude.reader py).Starts req.backendThreadId
        (spawn (Claude.buildArgv command req) req.cwd req.env req.timeoutS)) :=
  ⟨Codex.run_proper_iff py command spawn req, Claude.run_proper_iff py command spawn req⟩

/-- A spawn function that cannot start the command line tool. -/
def spawnMissing : SpawnFn := fun _ _ _ _ =>
  .failed ⟨.osError, "[Errno 2] No such file or directory: 'codex'"⟩

/-- A process whose one line is valid JSON but no object. -/
def spawnArray : SpawnFn := fun _ _ _ _ => .started ["[]"] none 0

/-- A decoder that knows the empty array and nothing else. -/
def decodeArray : PyLib where
  loads text := if text = "[]" then .ok (.arr []) else .error ⟨.jsonDecodeError, "Expecting value"⟩
  intOfStr _ := .error ⟨.valueError, "invalid literal for int()"⟩
  repr _ := "[]"
  str _ := "[]"

/-- Not every run closes its stream: with no tool to spawn the `OSError` leaves `run`, and so does
the `AttributeError` of a line that is a JSON array. -/
theorem streams_not_always_proper :
    ¬ Proper (Codex.run decodeArray "codex" spawnMissing
        { prompt := "hi", cwd := "/tmp", env := ∅ }) ∧
      ¬ Proper (Claude.run decodeArray "claude" spawnArray
        { prompt := "hi", cwd := "/tmp", env := ∅ }) := by
  refine ⟨fun h => ?_, fun h => ?_⟩
  · cases h.1
  · have hescapes : (Claude.run decodeArray "claude" spawnArray
        { prompt := "hi", cwd := "/tmp", env := ∅ }).raised =
        some ⟨.attributeError, "object has no attribute 'get'"⟩ := by decide
    cases h.1.symm.trans hescapes

end ClawEngine.Backends
