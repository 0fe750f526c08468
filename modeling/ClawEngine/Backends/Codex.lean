import ClawEngine.Backends.Subprocess

/-!
# CodexCliBackend

`adapters/backends/codex/backend.py`. One stdout line is decoded and dispatched on its `type` and,
for a completed item, on the item's `type`. The state carried from line to line is the thread id
last announced and the text of the last agent message.
-/

set_option autoImplicit false

namespace ClawEngine.Backends.Codex

open ClawEngine.Core ClawEngine.Runtime

/-- The variables of `run` that outlive a line. -/
structure State where
  threadId : Option Json
  finalText : Json

def capabilities : BackendCapabilities :=
  { supportsResume := true, supportsStreaming := false, supportsTools := true, supportsMcp := true
    authModes := ["api_key", "cli_login"] }

/-- `_build_argv`. -/
def buildArgv (command : String) (req : AgentRunRequest Json) : List Json :=
  [.str command, .str "exec"] ++
    (match req.backendThreadId with
      | some tid => if tid.truthy then [.str "resume", tid] else []
      | none => []) ++
    [.str "--dangerously-bypass-approvals-and-sandbox", .str "--json"] ++
    (match req.model with
      | some model => if model ≠ "" then [.str "--model", .str model] else []
      | none => []) ++
    [.str req.prompt]

/-- The branch of `item.completed`. -/
def onItem (s : State) (members : List (String × Json)) : LineResult State :=
  let evt := Json.obj members
  match (Json.get members "item").members? with
  | none => .done [protocolError "item.completed 缺少 item.type" evt]
  | some item =>
    if !(Json.get item "type").truthy then
      .done [protocolError "item.completed 缺少 item.type" evt]
    else
      let itype := Json.get item "type"
      if itype.isStr "tool_call" then
        let name := Json.get item "name"
        if !name.truthy then .done [protocolError "tool_call 缺少 name" evt]
        else
          .next [{ kind := .toolCallCompleted
                   tool := some { name, input := (Json.get item "input").toOption,
                                  output := (Json.get item "output").toOption }
                   raw := some evt }] s
      else if itype.isStr "agent_message" then
        if !Json.has item "text" then .done [protocolError "agent_message 缺少 text" evt]
        else
          let finalText := (Json.get item "text").orElse (.str "")
          .next [{ kind := .messageCompleted, text := some finalText, raw := some evt }]
            { s with finalText }
      else .next [] s

/-- The dispatch on a decoded object. -/
def onObject (s : State) (members : List (String × Json)) : LineResult State :=
  let evt := Json.obj members
  let etype := Json.get members "type"
  if etype.isStr "thread.started" then
    let tid := Json.get members "thread_id"
    if !tid.truthy then .done [protocolError "thread.started 缺少 thread_id" evt]
    else
      .next [{ kind := .threadStarted, backendThreadId := some tid, raw := some evt }]
        { s with threadId := some tid }
  else if etype.isStr "item.completed" then onItem s members
  else .next [] s

/-- The body of the loop. -/
def onLine (py : PyLib) (s : State) (raw : String) : LineResult State :=
  if isBlank raw then .next [] s
  else
    match py.loads raw with
    | .error e =>
      if e.kind = .jsonDecodeError then
        .done [protocolError s!"无法解析 codex 输出行: {py.repr (.str (clip raw))}"]
      else .raised [] e
    | .ok (.obj members) => onObject s members
    | .ok _ => .raised [] ⟨.attributeError, "object has no attribute 'get'"⟩

/-- What follows the loop. -/
def finish (s : State) (code : Int) : List (AgentEvent Json) :=
  if code ≠ 0 then [crashError s!"codex exited with {code}"]
  else
    [{ kind := .turnCompleted, backendThreadId := s.threadId
       result := some { backendThreadId := s.threadId, finalText := s.finalText, usage := {} } }]

/-- `CodexCliBackend.run`, exhausted. -/
def run (py : PyLib) (command : String) (spawn : SpawnFn) (req : AgentRunRequest Json) :
    EventStream Json PyError :=
  drive "codex" req.timeoutS (onLine py) finish
    { threadId := req.backendThreadId, finalText := .str "" }
    (spawn (buildArgv command req) req.cwd req.env req.timeoutS)

end ClawEngine.Backends.Codex
