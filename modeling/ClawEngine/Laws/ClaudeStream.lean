import ClawEngine.Laws.Narration

/-!
# A claude stream, told from its lines

`ClaudeCodeBackend.run` is decided by the first line that is not JSON, that breaks the schema of an
init or an assistant line, or that is a `result`. It tells the lines before, and of a deciding
assistant line the blocks before the one that breaks the schema; then it closes. Nothing after the
deciding line matters, the end of the iterator and the exit code included.

The session in force at a result is the one last announced, or else the handle of the request.
Usage is an object whose counts are integers or null, or it is absent.
-/

set_option autoImplicit false

namespace ClawEngine.Backends.Claude

open ClawEngine.Core ClawEngine.Runtime

/-! ## What the lines tell -/

/-- A token count that is an integer, null or absent. -/
def IsCount (v : Json) : Prop := v = .null ∨ ∃ i, v = .int i

/-- The usage of a line is absent, or an object with such counts. -/
def PlainUsage (members : List (String × Json)) : Prop :=
  Json.has members "usage" = true → ∃ usage, Json.get members "usage" = .obj usage ∧
    IsCount (Json.get usage "input_tokens") ∧ IsCount (Json.get usage "output_tokens")

/-- An object that decides the turn: an init or an assistant line that breaks the schema, or a
result. -/
def decidesObject (members : List (String × Json)) : Bool :=
  if isInit members then !(Json.get members "session_id").truthy
  else if (Json.get members "type").isStr "assistant" then assistantOffends members
  else (Json.get members "type").isStr "result"

/-- A line that decides the turn. -/
def decidesLine (py : PyLib) (line : String) : Bool :=
  isNoObject py line || (object? py line).any decidesObject

/-- What a content block tells; `evt` is the whole line. -/
def tellsBlock (evt block : Json) : List (AgentEvent Json) :=
  match block.members? with
  | none => []
  | some members =>
    if (Json.get members "type").isStr "text" then
      [{ kind := .messageCompleted, text := some ((Json.get members "text").orElse (.str ""))
         raw := some evt }]
    else if (Json.get members "type").isStr "tool_use" then
      [{ kind := .toolCallCompleted
         tool := some { name := Json.get members "name"
                        input := (Json.get members "input").toOption }
         raw := some evt }]
    else []

/-- What content blocks tell, up to the first one that breaks the schema. -/
def tellsBlocks (evt : Json) (blocks : List Json) : List (AgentEvent Json) :=
  (blocks.takeWhile (!blockOffends ·)).flatMap (tellsBlock evt)

/-- What an object tells. -/
def tellsObject (members : List (String × Json)) : List (AgentEvent Json) :=
  if isInit members then
    if (Json.get members "session_id").truthy then
      [{ kind := .threadStarted, backendThreadId := some (Json.get members "session_id")
         raw := some (Json.obj members) }]
    else []
  else if (Json.get members "type").isStr "assistant" then
    tellsBlocks (Json.obj members) ((content? members).getD [])
  else []

/-- What a line tells. -/
def tells (py : PyLib) (line : String) : List (AgentEvent Json) :=
  match object? py line with
  | some members => tellsObject members
  | none => []

/-- What the error says of a block that breaks the schema. -/
def blockOffenceText (block : Json) : String :=
  match block.members? with
  | some members =>
    if (Json.get members "type").isStr "text" then "text block 缺少 text" else "tool_use 缺少 name"
  | none => ""

/-- What the error says of an assistant line that breaks the schema. -/
def assistantOffenceText (members : List (String × Json)) : String :=
  match (content? members).map (List.find? blockOffends) with
  | some (some block) => blockOffenceText block
  | _ => "assistant 缺少 message.content"

/-- A count of the usage, zero where there is none. -/
def countIn (usage : Json) (key : String) : Int :=
  match usage.members?.map (Json.get · key) with
  | some (.int i) => i
  | _ => 0

/-- The usage of a line. -/
def usageIn (members : List (String × Json)) : TokenUsage where
  inputTokens := countIn (Json.get members "usage") "input_tokens"
  outputTokens := countIn (Json.get members "usage") "output_tokens"

/-- How a result closes the turn, with the session in force and the text last told. -/
def resultEvent (py : PyLib) (sid : Option Json) (text : Json) (members : List (String × Json)) :
    AgentEvent Json :=
  let rsid := Json.get members "session_id"
  if (Json.get members "is_error").truthy then
    crashError ("claude result error: " ++ py.str (Json.getD members "subtype" (.str "unknown")))
  else if completes sid members then
    { kind := .turnCompleted, backendThreadId := some rsid
      result := some { backendThreadId := some rsid
                       finalText := (Json.get members "result").orElse text
                       usage := usageIn members } }
  else if !Json.has members "result" then
    protocolError "result(success) 缺少 result 文本" (Json.obj members)
  else if !rsid.truthy then protocolError "result 缺少 session_id" (Json.obj members)
  else
    protocolError
      s!"result.session_id 与 init 不一致: {py.repr rsid} != {py.repr (sid.getD .null)}"
      (Json.obj members)

/-- How a deciding line closes the turn. -/
def decision (py : PyLib) (sid : Option Json) (text : Json) (line : String) : AgentEvent Json :=
  match object? py line with
  | none => protocolError s!"无法解析 claude 输出行: {py.repr (.str (clip line))}"
  | some members =>
    if isInit members then protocolError "system/init 缺少 session_id" (Json.obj members)
    else if (Json.get members "type").isStr "assistant" then
      protocolError (assistantOffenceText members) (Json.obj members)
    else resultEvent py sid text members

/-- What the lines before the first deciding one tell. -/
def heard (py : PyLib) (lines : List String) : List (AgentEvent Json) :=
  (lines.takeWhile (!decidesLine py ·)).flatMap (tells py)

/-- The session in force after the lines before the first deciding one. -/
def inForce (py : PyLib) (req : AgentRunRequest Json) (lines : List String) : Option Json :=
  (lastThread (heard py lines)).or req.backendThreadId

/-- The end of a stream: of the first deciding line what it tells and how it closes the turn, else
the error for the exception, else the error for the exit code. -/
def ending (py : PyLib) (req : AgentRunRequest Json) (lines : List String)
    (stop : Option PyError) (code : Int) : List (AgentEvent Json) :=
  match lines.find? (decidesLine py), stop with
  | some line, _ =>
    tells py line ++ [decision py (inForce py req lines) (lastText (heard py lines)) line]
  | none, some e => [stopEvent "claude" req.timeoutS e]
  | none, none =>
    [if code ≠ 0 then crashError s!"claude exited with {code}"
      else protocolError "claude 流结束但缺少 result 终态事件"]

/-! ## The loop over the blocks -/

/-- The state after events. -/
def State.hear (s : State) (events : List (AgentEvent Json)) : State where
  sessionId := (lastThread events).or s.sessionId
  finalText := (events.filterMap AgentEvent.text).getLast?.getD s.finalText

theorem State.hear_append (s : State) (told events : List (AgentEvent Json)) :
    s.hear (told ++ events) = (s.hear told).hear events := by
  unfold State.hear
  rw [lastThread_append, Option.or_assoc, List.filterMap_append, List.getLast?_append]
  cases (events.filterMap AgentEvent.text).getLast? with
  | none => rfl
  | some text => rfl

/-- Events before what a line does. -/
def prepend (told : List (AgentEvent Json)) : LineResult State → LineResult State
  | .next events s => .next (told ++ events) s
  | .done events => .done (told ++ events)
  | .raised events e => .raised (told ++ events) e

/-- A block that keeps the schema is told. -/
theorem onBlocks_cons {evt block : Json} (s : State) (blocks : List Json)
    (h : blockOffends block = false) : onBlocks evt s (block :: blocks) =
      prepend (tellsBlock evt block) (onBlocks evt (s.hear (tellsBlock evt block)) blocks) := by
  have hnil : tellsBlock evt block = [] →
      onBlocks evt s blocks =
        prepend (tellsBlock evt block) (onBlocks evt (s.hear (tellsBlock evt block)) blocks) := by
    intro htells
    have hsame : s.hear [] = s := rfl
    rw [htells, hsame]
    cases onBlocks evt s blocks with
    | next events s' => rfl
    | done events => rfl
    | raised events e => rfl
  cases hmem : block.members? with
  | none =>
    rw [onBlocks, hmem]
    exact hnil (by rw [tellsBlock, hmem])
  | some members =>
    cases htext : (Json.get members "type").isStr "text" with
    | true =>
      have hhas : Json.has members "text" = true := by
        by_contra hno
        rw [blockOffends, hmem] at h
        simp only [htext, Bool.eq_false_iff.mpr hno, Bool.not_false, Bool.and_self, Bool.true_or,
          Bool.true_eq_false] at h
      simp only [onBlocks, tellsBlock, hmem, htext, hhas]
      rfl
    | false =>
      cases htool : (Json.get members "type").isStr "tool_use" with
      | true =>
        have hname : (Json.get members "name").truthy = true := by
          by_contra hno
          rw [blockOffends, hmem] at h
          simp only [htool, Bool.eq_false_iff.mpr hno, Bool.not_false, Bool.and_self, Bool.or_true,
            Bool.true_eq_false] at h
        simp only [onBlocks, tellsBlock, hmem, htext, htool, hname]
        rfl
      | false =>
        have htells : tellsBlock evt block = [] := by
          simp only [tellsBlock, hmem, htext, htool]
          rfl
        have hskip : onBlocks evt s (block :: blocks) = onBlocks evt s blocks := by
          simp only [onBlocks, hmem, htext, htool]
          rfl
        rw [hskip]
        exact hnil htells

/-- A block that breaks the schema ends the turn. -/
theorem onBlocks_offends {evt block : Json} (s : State) (blocks : List Json)
    (h : blockOffends block = true) : onBlocks evt s (block :: blocks) =
      .done [protocolError (blockOffenceText block) evt] := by
  rw [blockOffends] at h
  cases hmem : block.members? with
  | none =>
    rw [hmem] at h
    cases h
  | some members =>
    rw [hmem] at h
    rw [onBlocks, blockOffenceText, hmem]
    dsimp only
    rcases Bool.or_eq_true_iff.mp h with h | h
    · obtain ⟨htext, hhas⟩ := Bool.and_eq_true_iff.mp h
      rw [if_pos htext, if_pos hhas, if_pos htext]
    · obtain ⟨htool, hname⟩ := Bool.and_eq_true_iff.mp h
      have htext : (Json.get members "type").isStr "text" = false :=
        Bool.eq_false_iff.mpr fun htext => by
          rw [isStr_text htext] at htool
          cases htool
      rw [htext, if_pos htool, if_pos hname]
      rfl

/-- **The blocks are told up to the first that breaks the schema.** -/
theorem onBlocks_told (evt : Json) (blocks : List Json) (s : State) :
    onBlocks evt s blocks =
      match blocks.find? blockOffends with
      | some block => .done (tellsBlocks evt blocks ++ [protocolError (blockOffenceText block) evt])
      | none => .next (tellsBlocks evt blocks) (s.hear (tellsBlocks evt blocks)) := by
  induction blocks generalizing s with
  | nil => rfl
  | cons block blocks ih =>
    cases hblock : blockOffends block with
    | true =>
      rw [onBlocks_offends s blocks hblock, List.find?_cons_of_pos hblock, tellsBlocks,
        List.takeWhile_cons, hblock]
      rfl
    | false =>
      have htells : tellsBlocks evt (block :: blocks) =
          tellsBlock evt block ++ tellsBlocks evt blocks := by
        rw [tellsBlocks, List.takeWhile_cons, hblock]
        rfl
      rw [onBlocks_cons s blocks hblock, ih, htells,
        List.find?_cons_of_neg (by rw [hblock]; exact Bool.false_ne_true)]
      cases blocks.find? blockOffends with
      | some offender => rw [prepend, ← List.append_assoc]
      | none => rw [prepend, State.hear_append]

/-! ## The loop body -/

theorem onInit_told (s : State) {members : List (String × Json)} (h : isInit members = true) :
    onInit s members =
      if decidesObject members then
        .done [protocolError "system/init 缺少 session_id" (Json.obj members)]
      else .next (tellsObject members) (s.hear (tellsObject members)) := by
  cases hsid : (Json.get members "session_id").truthy with
  | true =>
    simp only [onInit, decidesObject, tellsObject, h, hsid]
    rfl
  | false =>
    simp only [onInit, decidesObject, h, hsid]
    rfl

theorem onAssistant_told (s : State) (members : List (String × Json)) :
    onAssistant s members =
      let told := tellsBlocks (Json.obj members) ((content? members).getD [])
      if assistantOffends members then
        .done (told ++ [protocolError (assistantOffenceText members) (Json.obj members)])
      else .next told (s.hear told) := by
  rw [onAssistant_eq]
  cases hblocks : content? members with
  | none =>
    simp only [assistantOffends, assistantOffenceText, hblocks]
    rfl
  | some blocks =>
    simp only [assistantOffends, assistantOffenceText, hblocks, onBlocks_told]
    cases hfound : blocks.find? blockOffends with
    | some block =>
      have hany : blocks.any blockOffends = true :=
        List.any_eq_true.mpr ⟨block, List.mem_of_find?_eq_some hfound, List.find?_some hfound⟩
      rw [hany, Option.map_some, hfound]
      rfl
    | none =>
      have hany : blocks.any blockOffends = false :=
        List.any_eq_false.mpr (List.find?_eq_none.mp hfound)
      rw [hany]
      rfl

theorem getD_of_has {members : List (String × Json)} {key : String} (default : Json)
    (h : Json.has members key = true) : Json.getD members key default = Json.get members key := by
  obtain ⟨m, hmem, hm⟩ := List.any_eq_true.mp h
  cases hfound : members.find? fun m => m.1 == key with
  | some m' => rw [Json.get, Json.getD, Json.getD, hfound]
  | none => exact absurd hm (List.find?_eq_none.mp hfound m hmem)

theorem getD_of_not_has {members : List (String × Json)} {key : String} (default : Json)
    (h : Json.has members key = false) : Json.getD members key default = default := by
  have hnone := List.find?_eq_none.mpr (List.any_eq_false.mp h)
  rw [Json.getD, hnone]

/-- A plain count is read as it is. -/
theorem tokenCount_plain (py : PyLib) {usage : List (String × Json)} {key : String}
    (h : IsCount (Json.get usage key)) :
    tokenCount py (.obj usage) key = .ok (countIn (.obj usage) key) := by
  rw [tokenCount, Json.callGet, countIn]
  cases hhas : Json.has usage key with
  | false =>
    rw [getD_of_not_has _ hhas, Json.members?, Option.map_some, Json.get, getD_of_not_has _ hhas]
    rfl
  | true =>
    rw [getD_of_has _ hhas, Json.members?, Option.map_some]
    rcases h with hnull | ⟨i, hi⟩
    · rw [hnull]
      rfl
    · have hor : (Json.int i).orElse (.int 0) = .int i := by
        by_cases hzero : i = 0
        · rw [hzero]
          rfl
        · exact if_pos (decide_eq_true hzero)
      dsimp only
      rw [hi, hor]
      rfl

/-- A plain usage is counted. -/
theorem tokenUsage_plain (py : PyLib) {members : List (String × Json)} (h : PlainUsage members) :
    tokenUsage py ((Json.get members "usage").orElse (.obj [])) = .ok (usageIn members) := by
  cases hhas : Json.has members "usage" with
  | false =>
    have hnull : Json.get members "usage" = .null := getD_of_not_has _ hhas
    rw [usageIn, hnull]
    rfl
  | true =>
    obtain ⟨usage, husage, hinput, houtput⟩ := h hhas
    have hsame : (Json.obj usage).orElse (.obj []) = .obj usage := by
      cases usage with
      | nil => rfl
      | cons member rest => rfl
    rw [usageIn, husage, hsame, tokenUsage, tokenCount_plain py hinput,
      tokenCount_plain py houtput]

theorem onResult_told {py : PyLib} (s : State) {members : List (String × Json)}
    (h : PlainUsage members) :
    onResult py s members = .done [resultEvent py s.sessionId s.finalText members] := by
  have husage := tokenUsage_plain py h
  cases herr : (Json.get members "is_error").truthy with
  | true =>
    simp only [onResult, resultEvent, herr]
    rfl
  | false =>
    cases hres : Json.has members "result" with
    | false =>
      simp only [onResult, resultEvent, completes, herr, hres]
      rfl
    | true =>
      cases hsid : (Json.get members "session_id").truthy with
      | false =>
        simp only [onResult, resultEvent, completes, herr, hres, hsid]
        rfl
      | true =>
        cases hmis : mismatch s.sessionId (Json.get members "session_id") with
        | true =>
          simp only [onResult, resultEvent, completes, herr, hres, hsid, hmis]
          rfl
        | false =>
          simp only [onResult, resultEvent, completes, herr, hres, hsid, hmis, husage]
          rfl

/-- The narrative of a claude stream. -/
def narrative (py : PyLib) (req : AgentRunRequest Json) : Narrative State where
  decides := decidesLine py
  tells := tells py
  after told :=
    { sessionId := (lastThread told).or req.backendThreadId, finalText := lastText told }
  closes s line := decision py s.sessionId s.finalText line

theorem after_append (py : PyLib) (req : AgentRunRequest Json)
    (told events : List (AgentEvent Json)) :
    (narrative py req).after (told ++ events) = ((narrative py req).after told).hear events := by
  simp only [narrative, State.hear, lastThread_append, lastText_append, Option.or_assoc]

theorem onObject_told {py : PyLib} (s : State) {line : String} {members : List (String × Json)}
    (hobj : object? py line = some members)
    (h : (Json.get members "type").isStr "result" = true → PlainUsage members) :
    onObject py s members =
      if decidesObject members then
        .done (tellsObject members ++ [decision py s.sessionId s.finalText line])
      else .next (tellsObject members) (s.hear (tellsObject members)) := by
  have hdispatch : onObject py s members =
      if isInit members then onInit s members
      else if (Json.get members "type").isStr "assistant" then onAssistant s members
      else if (Json.get members "type").isStr "result" then onResult py s members
      else .next [] s := rfl
  rw [hdispatch]
  cases hinit : isInit members with
  | true =>
    rw [if_pos rfl, onInit_told s hinit]
    cases hdecides : decidesObject members with
    | false => rfl
    | true =>
      have htells : tellsObject members = [] := by
        rw [decidesObject, if_pos hinit, Bool.not_eq_true'] at hdecides
        rw [tellsObject, if_pos hinit, hdecides]
        rfl
      rw [htells, decision, hobj]
      simp only [hinit]
      rfl
  | false =>
    rw [if_neg Bool.false_ne_true]
    cases hassistant : (Json.get members "type").isStr "assistant" with
    | true =>
      simp only [onAssistant_told, decidesObject, tellsObject, decision, hobj, hinit, hassistant]
      rfl
    | false =>
      cases hresult : (Json.get members "type").isStr "result" with
      | true =>
        simp only [onResult_told s (h hresult), decidesObject, tellsObject, decision, hobj, hinit,
          hassistant, hresult]
        rfl
      | false =>
        simp only [decidesObject, tellsObject, hinit, hassistant, hresult]
        rfl

/-- **The loop body follows the narrative.** -/
theorem onLine_follows (py : PyLib) (req : AgentRunRequest Json) {line : String}
    (h : Plain py (fun members => (Json.get members "type").isStr "result" = true →
      PlainUsage members) line) : (narrative py req).Follows (onLine py) line := by
  intro told
  rw [after_append]
  cases h with
  | blank h =>
    simp only [narrative, onLine, tells, decidesLine, isNoObject, object?, h]
    rfl
  | noJson h e hloads he =>
    simp only [narrative, onLine, tells, decision, decidesLine, isNoObject, object?, h, hloads, he]
    rfl
  | object h members hloads husage =>
    have hobj : object? py line = some members := by
      rw [object?, h, hloads]
      rfl
    have hdecides : decidesLine py line = decidesObject members := by
      rw [decidesLine, isNoObject, hobj, Option.isNone_some, Bool.and_false, Bool.false_or]
      rfl
    simp only [narrative, onLine, h, hloads, onObject_told _ hobj husage, tells, hdecides, hobj]
    rfl

/-! ## The stream -/

theorem tells_open (py : PyLib) (line : String) : Open (tells py line) := by
  have hblock : ∀ evt block, Open (tellsBlock evt block) := by
    intro evt block
    unfold tellsBlock
    split
    · exact open_nil
    · split_ifs
      · exact open_cons rfl open_nil
      · exact open_cons rfl open_nil
      · exact open_nil
  unfold tells
  split
  · unfold tellsObject
    split_ifs
    · exact open_cons rfl open_nil
    · exact open_nil
    · intro event hmem
      obtain ⟨block, -, hevent⟩ := List.mem_flatMap.mp hmem
      exact hblock _ _ event hevent
    · exact open_nil
  · exact open_nil

/-- A result that completes a turn with this session in force. -/
def CompletingLine (py : PyLib) (sid : Option Json) (line : String) : Prop :=
  ∃ members, object? py line = some members ∧
    (Json.get members "type").isStr "result" = true ∧ completes sid members = true

theorem decision_kind {py : PyLib} {sid : Option Json} {text : Json} {line : String}
    (h : decidesLine py line = true) :
    (decision py sid text line).kind = .turnCompleted ↔ CompletingLine py sid line := by
  unfold decision CompletingLine
  cases hobj : object? py line with
  | none =>
    refine iff_of_false (by intro hkind; cases hkind) ?_
    rintro ⟨members, hmembers, -⟩
    cases hmembers
  | some members =>
    have hdecides : decidesObject members = true := by
      rw [decidesLine, isNoObject, hobj, Option.isNone_some, Bool.and_false, Bool.false_or] at h
      exact h
    have hcompleting : (∃ members', some members = some members' ∧
        (Json.get members' "type").isStr "result" = true ∧ completes sid members' = true) ↔
          (Json.get members "type").isStr "result" = true ∧ completes sid members = true :=
      ⟨fun ⟨_, heq, hc⟩ => Option.some.inj heq ▸ hc, fun hc => ⟨members, rfl, hc⟩⟩
    rw [hcompleting]
    dsimp only
    cases hinit : isInit members with
    | true =>
      refine iff_of_false (by intro hkind; cases hkind) fun hc => ?_
      rw [isInit, Bool.and_eq_true] at hinit
      rw [isStr_other hinit.1 (by decide)] at hc
      cases hc.1
    | false =>
      rw [if_neg Bool.false_ne_true]
      cases hassistant : (Json.get members "type").isStr "assistant" with
      | true =>
        refine iff_of_false (by intro hkind; cases hkind) fun hc => ?_
        rw [isStr_other hassistant (by decide)] at hc
        cases hc.1
      | false =>
        rw [decidesObject, hinit, hassistant] at hdecides
        have hresult : (Json.get members "type").isStr "result" = true := hdecides
        rw [if_neg Bool.false_ne_true, and_iff_right hresult, resultEvent]
        split_ifs with herr hcomp
        · refine iff_of_false (by intro hkind; cases hkind) fun hc => ?_
          rw [completes, herr] at hc
          cases hc
        · exact iff_of_true rfl hcomp
        · exact iff_of_false (by intro hkind; cases hkind) hcomp
        · exact iff_of_false (by intro hkind; cases hkind) hcomp
        · exact iff_of_false (by intro hkind; cases hkind) hcomp

theorem stopEvent_kind (cli : String) (timeoutS : Int) (e : PyError) :
    (stopEvent cli timeoutS e).kind = .error := by
  unfold stopEvent
  split <;> rfl

theorem ending_of_decides {py : PyLib} {lines : List String} {line : String}
    (h : lines.find? (decidesLine py) = some line) (req : AgentRunRequest Json)
    (stop : Option PyError) (code : Int) :
    ending py req lines stop code = tells py line ++
      [decision py (inForce py req lines) (lastText (heard py lines)) line] := by
  unfold ending
  rw [h]

/-- The turn completes exactly at a deciding line that is a completing result. -/
theorem ending_completes_iff {py : PyLib} {req : AgentRunRequest Json} {lines : List String}
    {stop : Option PyError} {code : Int} :
    (∃ event ∈ heard py lines ++ ending py req lines stop code, event.kind = .turnCompleted) ↔
      ∃ line, lines.find? (decidesLine py) = some line ∧
        CompletingLine py (inForce py req lines) line := by
  have hopen : ∀ (event : AgentEvent Json) line, event ∈ tells py line →
      event.kind ≠ .turnCompleted := by
    intro event line hmem hkind
    have hterminal := tells_open py line event hmem
    rw [AgentEvent.isTerminal, hkind] at hterminal
    cases hterminal
  constructor
  · rintro ⟨event, hmem, hkind⟩
    rcases List.mem_append.mp hmem with hmem | hmem
    · obtain ⟨line, -, hevent⟩ := List.mem_flatMap.mp hmem
      exact absurd hkind (hopen event line hevent)
    · cases hfound : lines.find? (decidesLine py) with
      | some line =>
        rw [ending_of_decides hfound] at hmem
        rcases List.mem_append.mp hmem with hmem | hmem
        · exact absurd hkind (hopen event line hmem)
        · rw [List.mem_singleton.mp hmem] at hkind
          exact ⟨line, rfl, (decision_kind (List.find?_some hfound)).mp hkind⟩
      | none =>
        unfold ending at hmem
        rw [hfound] at hmem
        cases stop with
        | some e =>
          rw [List.mem_singleton.mp hmem, stopEvent_kind] at hkind
          cases hkind
        | none =>
          rw [List.mem_singleton.mp hmem] at hkind
          split at hkind
          · cases hkind
          · cases hkind
  · rintro ⟨line, hfound, hcompleting⟩
    refine ⟨decision py (inForce py req lines) (lastText (heard py lines)) line, ?_,
      (decision_kind (List.find?_some hfound)).mpr hcompleting⟩
    rw [ending_of_decides hfound]
    exact List.mem_append_right _ (List.mem_append_right _ (List.mem_singleton_self _))

/-- **A claude stream, told from its lines.** -/
theorem run_heard {py : PyLib} {command : String} {spawn : SpawnFn} {req : AgentRunRequest Json}
    {lines : List String} {stop : Option PyError} {code : Int}
    (hspawn : spawn (buildArgv command req) req.cwd req.env req.timeoutS =
      .started lines stop code)
    (hlines : ∀ line ∈ lines, Plain py PlainUsage line)
    (hstop : ∀ e, stop = some e → Caught e) :
    run py command spawn req = { events := heard py lines ++ ending py req lines stop code } := by
  have hstart : (narrative py req).after [] =
      { sessionId := req.backendThreadId, finalText := .str "" } := rfl
  have hfinish : ∀ s : State, finish s code =
      [if code ≠ 0 then crashError s!"claude exited with {code}"
        else protocolError "claude 流结束但缺少 result 终态事件"] := by
    intro s
    unfold finish
    split <;> rfl
  rw [run, hspawn, drive, ← hstart,
    driveLines_told (fun line hline => onLine_follows py req
      ((hlines line hline).mono fun _ husage _ => husage)) hstop hfinish]
  congr 2
  unfold Narrative.ending ending
  cases hfound : lines.find? (decidesLine py) with
  | some line =>
    simp only [narrative, hfound]
    rfl
  | none =>
    simp only [narrative, hfound]
    cases stop <;> rfl

/-- **The first deciding line decides**: the stream is what the lines tell before it and its own
closing event, whatever lines, exception and exit code follow, and the turn completes exactly if that
line is a completing result. -/
theorem run_decided {py : PyLib} {command : String} {spawn : SpawnFn}
    {req : AgentRunRequest Json} {lines : List String} {stop : Option PyError} {code : Int}
    (hspawn : spawn (buildArgv command req) req.cwd req.env req.timeoutS =
      .started lines stop code)
    (hlines : ∀ line ∈ lines, Plain py PlainUsage line)
    (hstop : ∀ e, stop = some e → Caught e) :
    run py command spawn req = { events := heard py lines ++ ending py req lines stop code } ∧
      ((∃ event ∈ (run py command spawn req).events, event.kind = .turnCompleted) ↔
        ∃ line, lines.find? (decidesLine py) = some line ∧
          CompletingLine py (inForce py req lines) line) ∧
      ∀ line, lines.find? (decidesLine py) = some line →
        ∀ (spawn' : SpawnFn) (rest : List String) (stop' : Option PyError) (code' : Int),
          spawn' (buildArgv command req) req.cwd req.env req.timeoutS =
            .started (lines.takeWhile (!decidesLine py ·) ++ line :: rest) stop' code' →
          run py command spawn' req = run py command spawn req := by
  have htold := run_heard hspawn hlines hstop
  refine ⟨htold, by rw [htold]; exact ending_completes_iff, ?_⟩
  intro line hfound spawn' rest stop' code' hspawn'
  obtain ⟨_, -, hpass, hdecides⟩ := find?_decides (n := narrative py req) hfound
  have hbefore : ∀ line ∈ lines.takeWhile (!decidesLine py ·),
      (narrative py req).Follows (onLine py) line ∧ (narrative py req).decides line = false :=
    fun line hmem => ⟨onLine_follows py req ((hlines line (List.takeWhile_subset _ hmem)).mono
      fun _ husage _ => husage), hpass line hmem⟩
  have hstart : (narrative py req).after [] =
      { sessionId := req.backendThreadId, finalText := .str "" } := rfl
  have hline := onLine_follows py req ((hlines line (List.mem_of_find?_eq_some hfound)).mono
    fun _ husage _ => husage)
  rw [htold, run, hspawn', drive, ← hstart, driveLines_decided hbefore hline hdecides [],
    ending_of_decides hfound]
  rfl

/-- A line with the result of a session. -/
def doneLine : String :=
  "\x7b\"type\":\"result\",\"result\":\"done\",\"session_id\":\"s1\",\"usage\":\x7b\x7d\x7d"

/-- A decoder that knows the line and nothing else. -/
def decodeDone : PyLib where
  loads text :=
    if text = doneLine then
      .ok (.obj [("type", .str "result"), ("result", .str "done"), ("session_id", .str "s1"),
        ("usage", .obj [])])
    else .error ⟨.jsonDecodeError, "Expecting value"⟩
  intOfStr _ := .error ⟨.valueError, "invalid literal for int()"⟩
  repr _ := ""
  str _ := ""

/-- The output of a turn: a blank line, the result and a line that is not JSON. -/
def spawnDone : SpawnFn := fun _ _ _ _ => .started ["", doneLine, "oops"] none 1

theorem run_decided_once :
    let req : AgentRunRequest Json := { prompt := "hi", cwd := "/tmp", env := ∅ }
    (∃ event ∈ (run decodeDone "claude" spawnDone req).events, event.kind = .turnCompleted) ↔
      ∃ line, ["", doneLine, "oops"].find? (decidesLine decodeDone) = some line ∧
        CompletingLine decodeDone (inForce decodeDone req ["", doneLine, "oops"]) line := by
  have hspawn : spawnDone (buildArgv "claude" { prompt := "hi", cwd := "/tmp", env := ∅ }) "/tmp"
      ∅ 1800 = .started ["", doneLine, "oops"] none 1 := rfl
  refine (run_decided hspawn ?_ (fun e he => by cases he)).2.1
  intro line hline
  simp only [List.mem_cons, List.not_mem_nil, or_false] at hline
  rcases hline with rfl | rfl | rfl
  · exact .blank (by decide)
  · exact .object (by decide) _ rfl fun _ => ⟨[], rfl, .inl rfl, .inl rfl⟩
  · exact .noJson (by decide) _ rfl rfl

end ClawEngine.Backends.Claude
