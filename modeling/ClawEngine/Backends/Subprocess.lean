import ClawEngine.Runtime.Contracts

/-!
# A backend over a subprocess

What the two CLI adapters share: the error events of `adapters/backends/_errors.py`, the
interface of a spawn function, and the loop of `run` around the adapter's own treatment of one
stdout line. The loop is written once, `drive`; an adapter is its line function and what it yields
when the lines ran out.

`run` calls the spawn function **before** its `try`. Inside the `try` stand the loop over the
lines and the call that fetches the exit code. `TimeoutExpired`, then `OSError` and
`SubprocessError`, become an event there; every other exception leaves the generator.
-/

set_option autoImplicit false

namespace ClawEngine.Backends

open ClawEngine.Core ClawEngine.Runtime

/-! ## Error events -/

def err (kind : AgentErrorKind) (message : String) (retriable : Bool) (raw : Option Json := none) :
    AgentEvent Json :=
  { kind := .error, error := some { kind, message, retriable, raw } }

def protocolError (message : String) (raw : Option Json := none) : AgentEvent Json :=
  err .protocol message false raw

def timeoutError (message : String) : AgentEvent Json := err .timeout message true

def crashError (message : String) : AgentEvent Json := err .backendCrash message false

/-! ## Spawning -/

/-- What a spawn function does: it raises, or it returns the line iterator and the exit code the
second component will report. The iterator yields its lines and then stops or raises. -/
inductive SpawnOutcome
  | failed (e : PyError)
  | started (lines : List String) (stop : Option PyError) (returncode : Int)

/-- `spawn(argv, cwd, env, timeout_s)`. -/
abbrev SpawnFn := List Json → String → Dict String String → Int → SpawnOutcome

/-! ## The loop -/

/-- What the body of the loop does with one line: it yields events and goes on, or it yields
events and returns, or an exception interrupts it after some events. -/
inductive LineResult (S : Type)
  | next (events : List (AgentEvent Json)) (state : S)
  | done (events : List (AgentEvent Json))
  | raised (events : List (AgentEvent Json)) (e : PyError)

/-- `raw_line[:200]`. -/
def clip (raw : String) : String := String.ofList (raw.toList.take 200)

/-- The exceptions the `except` clauses of `run` name. -/
def Caught (e : PyError) : Prop :=
  e.kind = .timeoutExpired ∨ e.kind = .osError ∨ e.kind = .subprocessError

instance (e : PyError) : Decidable (Caught e) := by unfold Caught; infer_instance

/-- The `except` clauses of `run`. -/
def handleException (cli : String) (timeoutS : Int) (e : PyError) : EventStream Json PyError :=
  if e.kind = .timeoutExpired then { events := [timeoutError s!"{cli} 读取超时 ({timeoutS}s)"] }
  else if e.kind = .osError ∨ e.kind = .subprocessError then
    { events := [crashError s!"{cli} 子进程异常: {e.text}"] }
  else { events := [], raised := some e }

/-- Events yielded before a stream goes on. -/
def yieldThen (events : List (AgentEvent Json)) (rest : EventStream Json PyError) :
    EventStream Json PyError :=
  { rest with events := events ++ rest.events }

/-- The loop of `run` over the lines of a started process. -/
def driveLines {S : Type} (cli : String) (timeoutS : Int) (onLine : S → String → LineResult S)
    (finish : S → Int → List (AgentEvent Json)) (stop : Option PyError) (returncode : Int) :
    S → List String → EventStream Json PyError
  | s, [] =>
    match stop with
    | some e => handleException cli timeoutS e
    | none => { events := finish s returncode }
  | s, line :: lines =>
    match onLine s line with
    | .next events s' =>
      yieldThen events (driveLines cli timeoutS onLine finish stop returncode s' lines)
    | .done events => { events }
    | .raised events e => yieldThen events (handleException cli timeoutS e)

/-- `run`: an exception of the spawn function is not inside the `try`. -/
def drive {S : Type} (cli : String) (timeoutS : Int) (onLine : S → String → LineResult S)
    (finish : S → Int → List (AgentEvent Json)) (s : S) :
    SpawnOutcome → EventStream Json PyError
  | .failed e => { events := [], raised := some e }
  | .started lines stop returncode =>
    driveLines cli timeoutS onLine finish stop returncode s lines

end ClawEngine.Backends
