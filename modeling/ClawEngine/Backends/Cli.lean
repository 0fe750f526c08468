import ClawEngine.Backends.Claude
import ClawEngine.Backends.Codex
import ClawEngine.Orchestration.Engine

/-!
# The CLI backends, registered

`CodexCliBackend` and `ClaudeCodeBackend` as backends of an engine. What a process will do when it
is spawned is drawn from the world, run by run.
-/

set_option autoImplicit false

namespace ClawEngine.Backends

open ClawEngine.Core ClawEngine.Runtime ClawEngine.Orchestration

variable {ω : Type}

inductive Cli
  | codex | claude
  deriving DecidableEq, Repr

/-- `capabilities()`. -/
def Cli.capabilities : Cli → BackendCapabilities
  | .codex => Codex.capabilities
  | .claude => Claude.capabilities

/-- The words that ask to resume a thread. -/
def resumeWords (flag : String) (thread : Option Json) : List Json :=
  match thread with
  | some tid => if tid.truthy then [.str flag, tid] else []
  | none => []

/-- The words that name a model. -/
def modelWords (model : Option String) : List Json :=
  match model with
  | some model => if model ≠ "" then [.str "--model", .str model] else []
  | none => []

/-- `_build_argv(req)`. -/
def Cli.buildArgv (command : String) (req : AgentRunRequest Json) : Cli → List Json
  | .codex => Codex.buildArgv command req
  | .claude => Claude.buildArgv command req

/-- `run(req)`, exhausted. -/
def Cli.run (py : PyLib) (command : String) (spawn : SpawnFn) (req : AgentRunRequest Json) :
    Cli → EventStream Json PyError
  | .codex => Codex.run py command spawn req
  | .claude => Claude.run py command spawn req

/-- What the spawned process does. -/
def Cli.spawned (command : String) (spawn : SpawnFn) (req : AgentRunRequest Json) (cli : Cli) :
    SpawnOutcome :=
  spawn (cli.buildArgv command req) req.cwd req.env req.timeoutS

/-- The name of an exception's class. -/
def className : PyErrorKind → String
  | .attributeError => "AttributeError"
  | .typeError => "TypeError"
  | .valueError => "ValueError"
  | .overflowError => "OverflowError"
  | .recursionError => "RecursionError"
  | .jsonDecodeError => "JSONDecodeError"
  | .unicodeDecodeError => "UnicodeDecodeError"
  | .osError => "OSError"
  | .timeoutExpired => "TimeoutExpired"
  | .subprocessError => "SubprocessError"

/-- The stream, as the engine sees it. -/
def letOut (stream : EventStream Json PyError) : EventStream Json (Raised Json) where
  events := stream.events
  raised := stream.raised.map fun e => .other (className e.kind) e.text

/-- The backend of a CLI. -/
def Cli.backend (py : PyLib) (command : String) (spawn : ω → SpawnFn × ω) (cli : Cli) :
    Backend Json ω where
  capabilities := cli.capabilities
  run req w := (letOut (cli.run py command (spawn w).1 req), (spawn w).2)

end ClawEngine.Backends
