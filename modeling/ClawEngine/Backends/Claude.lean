import ClawEngine.Backends.Subprocess

/-!
# ClaudeCodeBackend

`adapters/backends/claude/backend.py`. A `system/init` line announces the session id, an
`assistant` line carries content blocks, and the first `result` line ends the turn whatever it
holds. The state carried from line to line is the session id in force (at first the request's
resume handle) and the text of the last text block.
-/

set_option autoImplicit false

namespace ClawEngine.Backends.Claude

open ClawEngine.Core ClawEngine.Runtime

/-- The variables of `run` that outlive a line. -/
structure State where
  sessionId : Option Json
  finalText : Json

def capabilities : BackendCapabilities :=
  { supportsResume := true, supportsStreaming := false, supportsTools := true, supportsMcp := false
    authModes := ["api_key", "cli_login"] }

/-- `_build_argv`. -/
def buildArgv (command : String) (req : AgentRunRequest Json) : List Json :=
  [.str command, .str "-p", .str req.prompt, .str "--output-format", .str "stream-json",
    .str "--verbose", .str "--dangerously-skip-permissions"] ++
    (match req.backendThreadId with
      | some tid => if tid.truthy then [.str "--resume", tid] else []
      | none => []) ++
    (match req.model with
      | some model => if model ≠ "" then [.str "--model", .str model] else []
      | none => [])

/-- The loop over the content blocks of an assistant line; `evt` is the whole line. -/
def onBlocks (evt : Json) : State → List Json → LineResult State
  | s, [] => .next [] s
  | s, block :: blocks =>
    match block.members? with
    | none => onBlocks evt s blocks
    | some members =>
      let btype := Json.get members "type"
      if btype.isStr "text" then
        if !Json.has members "text" then .done [protocolError "text block 缺少 text" evt]
        else
          let finalText := (Json.get members "text").orElse (.str "")
          let event : AgentEvent Json :=
            { kind := .messageCompleted, text := some finalText, raw := some evt }
          match onBlocks evt { s with finalText } blocks with
          | .next events s' => .next (event :: events) s'
          | .done events => .done (event :: events)
          | .raised events e => .raised (event :: events) e
      else if btype.isStr "tool_use" then
        let name := Json.get members "name"
        if !name.truthy then .done [protocolError "tool_use 缺少 name" evt]
        else
          let event : AgentEvent Json :=
            { kind := .toolCallCompleted
              tool := some { name, input := (Json.get members "input").toOption }
              raw := some evt }
          match onBlocks evt s blocks with
          | .next events s' => .next (event :: events) s'
          | .done events => .done (event :: events)
          | .raised events e => .raised (event :: events) e
      else onBlocks evt s blocks

/-- The branch of `system/init`. -/
def onInit (s : State) (members : List (String × Json)) : LineResult State :=
  let evt := Json.obj members
  let sid := Json.get members "session_id"
  if !sid.truthy then .done [protocolError "system/init 缺少 session_id" evt]
  else
    .next [{ kind := .threadStarted, backendThreadId := some sid, raw := some evt }]
      { s with sessionId := some sid }

/-- The branch of `assistant`. -/
def onAssistant (s : State) (members : List (String × Json)) : LineResult State :=
  let evt := Json.obj members
  let content :=
    match (Json.get members "message").members? with
    | some message => (Json.get message "content").items?
    | none => none
  match content with
  | none => .done [protocolError "assistant 缺少 message.content" evt]
  | some blocks => onBlocks evt s blocks

/-- `int(usage.get(key, 0) or 0)`. -/
def tokenCount (py : PyLib) (usage : Json) (key : String) : Except PyError Int :=
  match usage.callGet key (.int 0) with
  | .error e => .error e
  | .ok count => (count.orElse (.int 0)).toInt py

/-- The usage record of a completed turn. -/
def tokenUsage (py : PyLib) (usage : Json) : Except PyError TokenUsage :=
  match tokenCount py usage "input_tokens" with
  | .error e => .error e
  | .ok inputTokens =>
    match tokenCount py usage "output_tokens" with
    | .error e => .error e
    | .ok outputTokens => .ok { inputTokens, outputTokens }

/-- `session_id is not None and rsid != session_id`. -/
def mismatch (sessionId : Option Json) (rsid : Json) : Bool :=
  match sessionId with
  | some sid => !rsid.eq sid
  | none => false

/-- The branch of `result`: it always leaves the loop. -/
def onResult (py : PyLib) (s : State) (members : List (String × Json)) : LineResult State :=
  let evt := Json.obj members
  if (Json.get members "is_error").truthy then
    .done [crashError
      ("claude result error: " ++ py.str (Json.getD members "subtype" (.str "unknown")))]
  else if !Json.has members "result" then
    .done [protocolError "result(success) 缺少 result 文本" evt]
  else
    let rsid := Json.get members "session_id"
    if !rsid.truthy then .done [protocolError "result 缺少 session_id" evt]
    else if mismatch s.sessionId rsid then
      .done [protocolError
        s!"result.session_id 与 init 不一致: {py.repr rsid} != {py.repr (s.sessionId.getD .null)}"
        evt]
    else
      let finalText := (Json.get members "result").orElse s.finalText
      match tokenUsage py ((Json.get members "usage").orElse (.obj [])) with
      | .error e => .raised [] e
      | .ok usage =>
        .done [{ kind := .turnCompleted, backendThreadId := some rsid
                 result := some { backendThreadId := some rsid, finalText, usage } }]

/-- The dispatch on a decoded object. -/
def onObject (py : PyLib) (s : State) (members : List (String × Json)) : LineResult State :=
  let etype := Json.get members "type"
  if etype.isStr "system" && (Json.get members "subtype").isStr "init" then onInit s members
  else if etype.isStr "assistant" then onAssistant s members
  else if etype.isStr "result" then onResult py s members
  else .next [] s

/-- The body of the loop. -/
def onLine (py : PyLib) (s : State) (raw : String) : LineResult State :=
  if isBlank raw then .next [] s
  else
    match py.loads raw with
    | .error e =>
      if e.kind = .jsonDecodeError then
        .done [protocolError s!"无法解析 claude 输出行: {py.repr (.str (clip raw))}"]
      else .raised [] e
    | .ok (.obj members) => onObject py s members
    | .ok _ => .raised [] ⟨.attributeError, "object has no attribute 'get'"⟩

/-- What follows the loop: no `result` line ended the turn. -/
def finish (_ : State) (code : Int) : List (AgentEvent Json) :=
  if code ≠ 0 then [crashError s!"claude exited with {code}"]
  else [protocolError "claude 流结束但缺少 result 终态事件"]

/-- `ClaudeCodeBackend.run`, exhausted. -/
def run (py : PyLib) (command : String) (spawn : SpawnFn) (req : AgentRunRequest Json) :
    EventStream Json PyError :=
  drive "claude" req.timeoutS (onLine py) finish
    { sessionId := req.backendThreadId, finalText := .str "" }
    (spawn (buildArgv command req) req.cwd req.env req.timeoutS)

end ClawEngine.Backends.Claude
