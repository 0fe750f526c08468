import ClawEngine.Observability.Otel

/-!
# OtelTracer

`OtelTracer.start_trace` of `adapters/observability/otel/tracer.py`, and with it the tracer as the
engine uses it. A span of the API is started with a name and the dimensions of the trace that are
not `None`; the metadata is not forwarded. The values that are recorded are those that `_serialise`
has a text for, so no method of a span raises, but for what `__exit__` gets of `str`.

`exported` says which span a record of `MemoryTracer` stands for.
-/

set_option autoImplicit false

namespace ClawEngine.Observability

open ClawEngine.Core

/-- A value that `_serialise` has a text for. -/
structure Renderable (py : TextLib) where
  value : PyVal
  renders : ∃ text, serialise py value = .ok text

variable {py : TextLib}

/-- A value, or `None`. -/
def orNone : Option (Renderable py) → PyVal
  | none => .none
  | some v => v.value

/-- A span of the API: what it was started with, and what was called on it since. -/
structure OtelSpan where
  name : String
  attributes : List (String × String)
  span : OtelTraceSpan := {}

/-- The dimensions that are not `None`, by their keys in `_DIM_ATTRS`. -/
def dimAttributes (dims : TraceDims) : List (String × String) :=
  [("claw.workspace_id", dims.workspaceId), ("claw.user_id", dims.userId),
    ("claw.session_id", dims.sessionId), ("claw.backend_name", dims.backendName)].filterMap
      fun dim => dim.2.map (dim.1, ·)

/-- A call on the wrapper of a span. -/
def OtelSpan.on {A : Type} (s : OtelSpan) (call : SpanAct A) : OtelSpan :=
  { s with span := (call s.span).2 }

/-- `__exit__` of the wrapper. -/
def OtelSpan.exit (py : TextLib) (exc : Option (Except Thrown String)) (s : OtelSpan) :
    Except Thrown Unit × OtelSpan :=
  ((OtelTraceSpan.exit py exc s.span).1.map fun _ => (), s.on (OtelTraceSpan.exit py exc))

/-- `OtelTracer` with its `OtelTraceSpan`s; a handle is the index of the span. -/
def otelTracer (py : TextLib) : Tracer (Renderable py) (List OtelSpan) Nat where
  startTrace name dims _ _ spans := (spans.length, spans ++ [⟨name, dimAttributes dims, {}⟩])
  recordTool span name input output spans := spans.modify span
    (·.on (OtelTraceSpan.recordTool py name.value (orNone input) (orNone output)))
  finish span output error spans :=
    spans.modify span (·.on (OtelTraceSpan.finish py (orNone output) error))
  exit span exc := methodAt (OtelSpan.exit py exc) span
  asksText span spans := (spans[span]?).any (!·.span.ended)
  asksOpen := true
  exit_answer span exc spans := by
    show ((spans[span]?).map fun s => (OtelSpan.exit py exc s).1).getD (.ok ()) = _
    cases spans[span]? with
    | none => rfl
    | some s => exact OtelTraceSpan.exit_answer py exc s.span
  asksText_start name dims input metadata spans := by
    rw [List.getElem?_concat_length]
    rfl
  asksText_recordTool span name input output spans := by
    rw [List.getElem?_modify_eq]
    cases spans[span]? with
    | none => rfl
    | some s => exact congrArg (!·) (OtelTraceSpan.recordTool_flag py _ _ _ s.span)

/-! ## The span of a record -/

/-- The attributes of a value that has a text. -/
def attributesOf (py : TextLib) (key : String) (v : Option (Renderable py)) :
    List (String × PyVal) :=
  (OtelTraceSpan.toolAttributes py key (orNone v)).toOption.getD []

/-- The event of a tool. -/
def toolEvent (py : TextLib) (tool : ToolRecord (Renderable py)) : OtelCall :=
  .addEvent "tool" ([("tool.name", tool.name.value)] ++ attributesOf py "tool.input" tool.input ++
    attributesOf py "tool.output" tool.output)

/-- The calls that end a span with a verdict. -/
def closingCalls (py : TextLib) (output : Option (Renderable py)) (error : Option String) :
    List OtelCall :=
  (OtelTraceSpan.verdictCalls py (orNone output) error).toOption.getD [] ++ [.endSpan]

/-- The calls made on the span of a record. -/
def exportedCalls (py : TextLib) (r : TraceRecord (Renderable py)) : List OtelCall :=
  r.tools.map (toolEvent py) ++ if r.finished then closingCalls py r.output r.error else []

/-- **The span that a record stands for.** -/
def exported (py : TextLib) (r : TraceRecord (Renderable py)) : OtelSpan where
  name := r.name
  attributes := dimAttributes r.dims
  span := { ended := r.finished, calls := exportedCalls py r }

end ClawEngine.Observability
