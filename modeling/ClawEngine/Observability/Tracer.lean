import ClawEngine.Runtime.Contracts

/-!
# Tracers

`engine/observability`. A tracer acts on a trace state `τ` through span handles. The engine is
written against the protocol `Tracer`; `memoryTracer` keeps the records of `memory.py`, newest
last, and its handle is the index of the record; `noOpTracer` records nothing.

The metadata a trace is given are dictionaries of texts: the repository passes one, the redacted
environment.
-/

set_option autoImplicit false

namespace ClawEngine.Observability

open ClawEngine.Core

structure TraceDims where
  workspaceId : Option String := none
  userId : Option String := none
  sessionId : Option String := none
  backendName : Option String := none
  deriving DecidableEq

/-- The metadata of a trace. -/
abbrev TraceMetadata := Dict String (Dict String String)

/-- What was thrown: whether it is an `Exception`, and its text. -/
structure Thrown where
  isException : Bool
  text : String
  deriving DecidableEq, Repr

/-- The text of an exception, where there is one, by what its `str` answers. -/
def excText : (exc : Option (Except Thrown String)) → Except Thrown (Option String)
  | none => .ok none
  | some text => text.map some

/-- The protocols `Tracer` and `TraceSpan`. `exit` is `__exit__`, given what `str` of the exception
the block ended with answers; no tracer swallows that exception. A span may ask for the text
(`asksText`), and raises what making it raised; whether it asks depends on nothing but the calls made
on it: before it is finished it asks, or does not, as any span of the tracer. -/
structure Tracer (V τ σ : Type) where
  startTrace : (name : String) → (dims : TraceDims) → (input : String) →
    (metadata : Option TraceMetadata) → τ → σ × τ
  recordTool : σ → (name : V) → (input output : Option V) → τ → τ
  finish : σ → (output : Option V) → (error : Option String) → τ → τ
  exit : σ → (exc : Option (Except Thrown String)) → τ → Except Thrown Unit × τ
  asksText : σ → τ → Bool
  asksOpen : Bool
  exit_answer : ∀ span exc t, (exit span exc t).1 =
    if asksText span t then (excText exc).map fun _ => () else .ok ()
  asksText_start : ∀ name dims input metadata t,
    asksText (startTrace name dims input metadata t).1
      (startTrace name dims input metadata t).2 = asksOpen
  asksText_recordTool : ∀ span name input output t,
    asksText span (recordTool span name input output t) = asksText span t

variable {V : Type}

structure ToolRecord (V : Type) where
  name : V
  input : Option V
  output : Option V

structure TraceRecord (V : Type) where
  name : String
  dims : TraceDims
  input : String
  metadata : TraceMetadata
  tools : List (ToolRecord V) := []
  output : Option V := none
  error : Option String := none
  finished : Bool := false

/-- `MemorySpan.record_tool`. -/
def TraceRecord.recordTool (r : TraceRecord V) (name : V) (input output : Option V) :
    TraceRecord V :=
  { r with tools := r.tools ++ [{ name, input, output }] }

/-- `MemorySpan.finish`: only the first call counts. -/
def TraceRecord.finish (r : TraceRecord V) (output : Option V) (error : Option String) :
    TraceRecord V :=
  if r.finished then r else { r with output, error, finished := true }

/-- `MemorySpan.__exit__`: a finished record does not ask for the text. -/
def TraceRecord.exit (r : TraceRecord V) (exc : Option (Except Thrown String)) :
    Except Thrown Unit × TraceRecord V :=
  if r.finished then (.ok (), r)
  else
    match excText exc with
    | .ok error => (.ok (), r.finish none error)
    | .error e => (.error e, r)

theorem TraceRecord.exit_answer (r : TraceRecord V) (exc : Option (Except Thrown String)) :
    (r.exit exc).1 = if !r.finished then (excText exc).map fun _ => () else .ok () := by
  unfold exit
  cases r.finished with
  | true => rfl
  | false => cases excText exc <;> rfl

/-- A method of the span at this place. -/
def methodAt {S : Type} (method : S → Except Thrown Unit × S) (span : Nat) (spans : List S) :
    Except Thrown Unit × List S :=
  (((spans[span]?).map fun s => (method s).1).getD (.ok ()),
    spans.modify span fun s => (method s).2)

/-- `MemoryTracer` with its `MemorySpan`s. -/
def memoryTracer : Tracer V (List (TraceRecord V)) Nat where
  startTrace name dims input metadata traces :=
    (traces.length, traces ++ [{ name, dims, input, metadata := metadata.getD ∅ }])
  recordTool span name input output traces :=
    traces.modify span (·.recordTool name input output)
  finish span output error traces := traces.modify span (·.finish output error)
  exit span exc := methodAt (·.exit exc) span
  asksText span traces := (traces[span]?).any (!·.finished)
  asksOpen := true
  exit_answer span exc traces := by
    show ((traces[span]?).map fun r => (r.exit exc).1).getD (.ok ()) = _
    cases traces[span]? with
    | none => rfl
    | some r => exact r.exit_answer exc
  asksText_start name dims input metadata traces := by
    rw [List.getElem?_concat_length]
    rfl
  asksText_recordTool span name input output traces := by
    rw [List.getElem?_modify_eq]
    cases traces[span]? <;> rfl

/-- `NoOpTracer`. -/
def noOpTracer : Tracer V Unit Unit where
  startTrace _ _ _ _ _ := ((), ())
  recordTool _ _ _ _ _ := ()
  finish _ _ _ _ := ()
  exit _ _ _ := (.ok (), ())
  asksText _ _ := false
  asksOpen := false
  exit_answer _ _ _ := rfl
  asksText_start _ _ _ _ _ := rfl
  asksText_recordTool _ _ _ _ _ := rfl

end ClawEngine.Observability
