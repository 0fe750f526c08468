import ClawEngine.Backends.Subprocess
import ClawEngine.Core.Transition

/-!
# default_spawn

`adapters/backends/_subprocess.py`: the child process, the timer that kills it, and the generator
that hands its lines to the consumer. They run side by side, so they are one machine whose actions
are those of the child, of the timer thread and of the consumer.

The generator runs in the consumer's thread. It stands still at its `yield`; inside a call of the
consumer it may be blocked in the read of a line, or in `proc.wait()` once it left its loop: at the
end of the output, at a close, or at bytes that do not decode (`text=True`), which raise a
`UnicodeDecodeError`. Closing a generator that was never advanced does not run its body, and so not
its `finally` either; dropping the last reference closes it.
-/

set_option autoImplicit false

namespace ClawEngine.Backends

open ClawEngine.Core

/-- `threading.Timer`. -/
inductive TimerState
  | armed | cancelled | fired
  deriving DecidableEq, Repr

/-- Why the generator left its loop. -/
inductive LoopLeft
  | exhausted | closed | undecodable
  deriving DecidableEq, Repr

/-- Where the generator `lines()` stands. `waiting` is the `proc.wait()` of its `finally`. -/
inductive LinesState
  | created | suspended | reading
  | waiting (left : LoopLeft)
  | finished
  deriving DecidableEq, Repr

/-- The child process, the pipe, the timer and the generator. -/
structure Spawned where
  /-- The child's exit code, once it exited. -/
  exit : Option Int := none
  /-- A writing end of the pipe is open. -/
  stdoutOpen : Bool := true
  /-- The lines in the pipe; `none` is a part of the output that does not decode. -/
  pipe : List (Option String) := []
  timer : TimerState := .armed
  timedOut : Bool := false
  killed : Bool := false
  lines : LinesState := .created
  /-- The lines yielded. -/
  yielded : List String := []
  /-- What the generator ended with. -/
  raised : Option PyErrorKind := none
  /-- `proc.returncode`. -/
  returncode : Option Int := none
  deriving DecidableEq, Repr

/-- What can happen next. `resume` is the generator going on after the call it was blocked in. -/
inductive SpawnAction
  | write (line : Option String)
  | closeStdout
  | exit (code : Int)
  | fire
  | next
  | close
  | resume
  deriving DecidableEq, Repr

namespace Spawned

def alive (s : Spawned) : Bool := s.exit.isNone

/-- The `finally` block up to its `proc.wait()`: `timer.cancel()`. -/
def leave (s : Spawned) (left : LoopLeft) : Spawned :=
  { s with timer := if s.timer = .armed then .cancelled else s.timer, lines := .waiting left }

/-- `proc.wait()` returns, and what follows the `finally`: a close ends there, the exception of a
read goes on, and else the timeout is raised. -/
def reap (s : Spawned) (left : LoopLeft) (code : Int) : Spawned :=
  { s with
    returncode := some code
    lines := .finished
    raised :=
      match left with
      | .closed => none
      | .undecodable => some .unicodeDecodeError
      | .exhausted => if s.timedOut then some .timeoutExpired else none }

/-- The loop of the generator: the next line, or a wait for it, or the end of the output. -/
def advance (s : Spawned) : Spawned :=
  match s.pipe with
  | some line :: pipe => { s with pipe, lines := .suspended, yielded := s.yielded ++ [line] }
  | none :: _ => s.leave .undecodable
  | [] => if s.stdoutOpen then { s with lines := .reading } else s.leave .exhausted

/-- One action, where it can happen. -/
def step : SpawnAction → Spawned → Option Spawned
  | .write line, s =>
    if s.alive && s.stdoutOpen then some { s with pipe := s.pipe ++ [line] } else none
  | .closeStdout, s =>
    if s.alive && s.stdoutOpen then some { s with stdoutOpen := false } else none
  | .exit code, s => if s.alive then some { s with exit := some code, stdoutOpen := false } else none
  | .fire, s =>
    if s.timer = .armed then some { s with timer := .fired, timedOut := true, killed := true }
    else none
  | .next, s =>
    match s.lines with
    | .created | .suspended => some s.advance
    | .finished => some s
    | _ => none
  | .close, s =>
    match s.lines with
    | .created => some { s with lines := .finished }
    | .suspended => some (s.leave .closed)
    | .finished => some s
    | _ => none
  | .resume, s =>
    match s.lines, s.exit with
    | .reading, _ => if s.pipe.isEmpty && s.stdoutOpen then none else some s.advance
    | .waiting left, some code => some (s.reap left code)
    | _, _ => none

/-- `lambda: proc.returncode if proc.returncode is not None else 0`. -/
def exitCode (s : Spawned) : Int := s.returncode.getD 0

/-- What a consumer that exhausted the generator was given; `text` is that of its exception. -/
def outcome (s : Spawned) (text : String) : SpawnOutcome :=
  .started s.yielded (s.raised.map (⟨·, text⟩)) s.exitCode

end Spawned

/-- A run of a spawned child. -/
abbrev SpawnRun (actions : List SpawnAction) (s : Spawned) : Prop :=
  Run Spawned.step {} actions s

end ClawEngine.Backends
