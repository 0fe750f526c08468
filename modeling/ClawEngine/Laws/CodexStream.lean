import ClawEngine.Laws.Narration

/-!
# A codex stream, told from its lines

`CodexCliBackend.run` tells the lines before the first one that breaks the protocol, one event for
each announced thread, completed tool call and agent message. The stream closes with the error of the
offending line; where there is none, with the error of what the iterator raised, or of the exit
code, or with the completed turn. A member counts as missing where the code takes it so: a thread
id, an item type or a tool name that is not true, a text that is absent. A text that is not true
reads as the empty one.
-/

set_option autoImplicit false

namespace ClawEngine.Backends.Codex

open ClawEngine.Core ClawEngine.Runtime

/-! ## What the lines tell -/

/-- A line that breaks the protocol: it is not JSON, or an object that breaks the schema. -/
def offendsLine (py : PyLib) (line : String) : Bool :=
  isNoObject py line || (object? py line).any offends

/-- What the error says of a completed item that breaks the schema. -/
def itemOffenceText (members : List (String × Json)) : String :=
  match (Json.get members "item").members? with
  | none => "item.completed 缺少 item.type"
  | some item =>
    if (Json.get item "type").isStr "tool_call" then "tool_call 缺少 name"
    else if (Json.get item "type").isStr "agent_message" then "agent_message 缺少 text"
    else "item.completed 缺少 item.type"

/-- What the error says of an object that breaks the schema. -/
def offenceText (members : List (String × Json)) : String :=
  if (Json.get members "type").isStr "thread.started" then "thread.started 缺少 thread_id"
  else itemOffenceText members

/-- The error event of a line that breaks the protocol. -/
def offence (py : PyLib) (line : String) : AgentEvent Json :=
  match object? py line with
  | some members => protocolError (offenceText members) (Json.obj members)
  | none => protocolError s!"无法解析 codex 输出行: {py.repr (.str (clip line))}"

/-- What a completed item tells. -/
def tellsItem (members : List (String × Json)) : List (AgentEvent Json) :=
  match (Json.get members "item").members? with
  | none => []
  | some item =>
    if (Json.get item "type").isStr "tool_call" then
      [{ kind := .toolCallCompleted
         tool := some { name := Json.get item "name", input := (Json.get item "input").toOption,
                        output := (Json.get item "output").toOption }
         raw := some (Json.obj members) }]
    else if (Json.get item "type").isStr "agent_message" then
      [{ kind := .messageCompleted, text := some ((Json.get item "text").orElse (.str ""))
         raw := some (Json.obj members) }]
    else []

/-- What an object tells. -/
def tellsObject (members : List (String × Json)) : List (AgentEvent Json) :=
  if (Json.get members "type").isStr "thread.started" then
    [{ kind := .threadStarted, backendThreadId := some (Json.get members "thread_id")
       raw := some (Json.obj members) }]
  else if (Json.get members "type").isStr "item.completed" then tellsItem members
  else []

/-- What a line tells. -/
def tells (py : PyLib) (line : String) : List (AgentEvent Json) :=
  if offendsLine py line then []
  else
    match object? py line with
    | some members => tellsObject members
    | none => []

/-- What the lines before the first offending one tell. -/
def heard (py : PyLib) (lines : List String) : List (AgentEvent Json) :=
  (lines.takeWhile (!offendsLine py ·)).flatMap (tells py)

/-- The completing event, after what the lines told. -/
def completed (req : AgentRunRequest Json) (told : List (AgentEvent Json)) : AgentEvent Json :=
  let thread := (lastThread told).or req.backendThreadId
  { kind := .turnCompleted, backendThreadId := thread
    result := some { backendThreadId := thread, finalText := lastText told, usage := {} } }

/-- How a stream closes: for the first offending line, else for the exception, else for the exit
code. -/
def closing (py : PyLib) (req : AgentRunRequest Json) (lines : List String)
    (stop : Option PyError) (code : Int) : AgentEvent Json :=
  match lines.find? (offendsLine py), stop with
  | some line, _ => offence py line
  | none, some e => stopEvent "codex" req.timeoutS e
  | none, none =>
    if code ≠ 0 then crashError s!"codex exited with {code}" else completed req (heard py lines)

/-! ## The loop body -/

/-- The narrative of a codex stream. -/
def narrative (py : PyLib) (req : AgentRunRequest Json) : Narrative State where
  decides := offendsLine py
  tells := tells py
  after told :=
    { threadId := (lastThread told).or req.backendThreadId, finalText := lastText told }
  closes _ line := offence py line

/-- The state after events. -/
def State.hear (s : State) (events : List (AgentEvent Json)) : State where
  threadId := (lastThread events).or s.threadId
  finalText := (events.filterMap AgentEvent.text).getLast?.getD s.finalText

theorem after_append (py : PyLib) (req : AgentRunRequest Json)
    (told events : List (AgentEvent Json)) :
    (narrative py req).after (told ++ events) = ((narrative py req).after told).hear events := by
  simp only [narrative, State.hear, lastThread_append, lastText_append, Option.or_assoc]

/-- A value that is not true is no non-empty text. -/
theorem isStr_of_not_truthy {v : Json} (h : v.truthy = false) {text : String} (htext : text ≠ "") :
    v.isStr text = false := by
  cases v with
  | str s =>
    rw [Json.truthy, decide_eq_false_iff_not, not_not] at h
    rw [Json.isStr, h, beq_eq_false_iff_ne]
    exact htext.symm
  | _ => rfl

/-- A completed item that keeps the schema is told; another is an offence. -/
theorem onItem_told (s : State) (members : List (String × Json)) :
    onItem s members =
      if itemOffends members then
        .done [protocolError (itemOffenceText members) (Json.obj members)]
      else .next (tellsItem members) (s.hear (tellsItem members)) := by
  cases hitem : (Json.get members "item").members? with
  | none =>
    simp only [onItem, itemOffends, itemOffenceText, hitem]
    rfl
  | some item =>
    cases htype : (Json.get item "type").truthy with
    | false =>
      have htool := isStr_of_not_truthy htype (by decide : "tool_call" ≠ "")
      have hmsg := isStr_of_not_truthy htype (by decide : "agent_message" ≠ "")
      simp only [onItem, itemOffends, itemOffenceText, hitem, htype, htool, hmsg]
      rfl
    | true =>
      cases htool : (Json.get item "type").isStr "tool_call" with
      | true =>
        have hmsg := isStr_tool_call htool
        cases hname : (Json.get item "name").truthy with
        | false =>
          simp only [onItem, itemOffends, itemOffenceText, hitem, htype, htool, hname]
          rfl
        | true =>
          simp only [onItem, itemOffends, tellsItem, hitem, htype, htool, hmsg, hname]
          rfl
      | false =>
        cases hmsg : (Json.get item "type").isStr "agent_message" with
        | true =>
          cases htext : Json.has item "text" with
          | false =>
            simp only [onItem, itemOffends, itemOffenceText, hitem, htype, htool, hmsg, htext]
            rfl
          | true =>
            simp only [onItem, itemOffends, tellsItem, hitem, htype, htool, hmsg, htext]
            rfl
        | false =>
          simp only [onItem, itemOffends, tellsItem, hitem, htype, htool, hmsg]
          rfl

theorem onObject_told (s : State) (members : List (String × Json)) :
    onObject s members =
      if offends members then .done [protocolError (offenceText members) (Json.obj members)]
      else .next (tellsObject members) (s.hear (tellsObject members)) := by
  cases hstarted : (Json.get members "type").isStr "thread.started" with
  | true =>
    cases htid : (Json.get members "thread_id").truthy with
    | false =>
      simp only [onObject, offends, offenceText, hstarted, htid]
      rfl
    | true =>
      simp only [onObject, offends, tellsObject, hstarted, htid]
      rfl
  | false =>
    cases hitem : (Json.get members "type").isStr "item.completed" with
    | true =>
      simp only [onObject, onItem_told, offends, offenceText, tellsObject, hstarted, hitem]
      rfl
    | false =>
      simp only [onObject, offends, tellsObject, hstarted, hitem]
      rfl

/-- **The loop body follows the narrative.** -/
theorem onLine_follows (py : PyLib) (req : AgentRunRequest Json) {line : String}
    (h : Plain py (fun _ => True) line) :
    (narrative py req).Follows (onLine py) line := by
  intro told
  rw [after_append]
  simp only [narrative]
  cases h with
  | blank h =>
    simp only [onLine, tells, offendsLine, isNoObject, object?, h]
    rfl
  | noJson h e hloads he =>
    simp only [onLine, tells, offence, offendsLine, isNoObject, object?, h, hloads, he]
    rfl
  | object h members hloads _ =>
    have hobj : object? py line = some members := by
      rw [object?, h, hloads]
      rfl
    have hoff : offendsLine py line = offends members := by
      rw [offendsLine, isNoObject, hobj, Option.isNone_some, Bool.and_false, Bool.false_or]
      rfl
    simp only [onLine, h, hloads, onObject_told, tells, offence, hoff, hobj]
    cases offends members with
    | true => rfl
    | false => rfl

/-! ## The stream -/

end ClawEngine.Backends.Codex
