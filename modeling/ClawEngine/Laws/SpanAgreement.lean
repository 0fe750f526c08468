import ClawEngine.Laws.SpanRendering
import Mathlib.Data.List.Induction

/-!
# Two spans under the same calls

`MemorySpan` and `OtelTraceSpan` each keep a flag of their own. Under the same calls they agree
(`Agree`): the first `finish` or `__exit__` gives both their verdict, and ends the span below; what
tools are recorded before it are the same, and nothing is raised or swallowed.

The agreement is kept by every call, whose effect on a span is one of three: a tool is recorded, a
span is finished, or nothing happens.
-/

set_option autoImplicit false

namespace ClawEngine.Observability

open ClawEngine.Core OtelTraceSpan

/-! ## Calls -/

/-- A call on a span. An exception is what its `str` answers. -/
inductive SpanOp
  | recordTool (name input output : PyVal)
  | finish (output : PyVal) (error : Option String)
  | exit (exc : Option (Except Thrown String))

/-- What a call answered: `none` for `None`. -/
abbrev SpanAnswer := Except Thrown (Option Bool)

/-- A call on an `OtelTraceSpan`. -/
def otelStep (py : TextLib) : SpanOp → OtelTraceSpan → SpanAnswer × OtelTraceSpan
  | .recordTool name input output, s =>
    ((recordTool py name input output s).1.map fun _ => none,
      (recordTool py name input output s).2)
  | .finish output error, s =>
    ((finish py output error s).1.map fun _ => none, (finish py output error s).2)
  | .exit exc, s => ((exit py exc s).1.map some, (exit py exc s).2)

/-- An argument, where it is not `None`. -/
def given : PyVal → Option PyVal
  | .none => none
  | v => some v

/-- A call on a `MemorySpan`. -/
def memoryStep : SpanOp → TraceRecord PyVal → SpanAnswer × TraceRecord PyVal
  | .recordTool name input output, r =>
    (.ok none, r.recordTool name (given input) (given output))
  | .finish output error, r => (.ok none, r.finish (given output) error)
  | .exit exc, r => ((r.exit exc).1.map fun _ => some false, (r.exit exc).2)

/-- Calls one after another: what they answered, and where they ended. -/
def observe {S : Type} (step : SpanOp → S → SpanAnswer × S) (s : S) :
    List SpanOp → List SpanAnswer × S
  | [] => ([], s)
  | op :: ops =>
    ((step op s).1 :: (observe step (step op s).2 ops).1, (observe step (step op s).2 ops).2)

theorem observe_snoc {S : Type} {step : SpanOp → S → SpanAnswer × S} {s : S} {ops : List SpanOp}
    {op : SpanOp} : observe step s (ops ++ [op]) =
      ((observe step s ops).1 ++ [(step op (observe step s ops).2).1],
        (step op (observe step s ops).2).2) := by
  induction ops generalizing s with
  | nil => rfl
  | cons first ops ih => rw [List.cons_append, observe, ih]; rfl

/-! ## What a call says -/

namespace SpanOp

/-- Every value has a text, and so has every exception. -/
def Harmless (py : TextLib) : SpanOp → Prop
  | .recordTool _ input output =>
    (∃ text, serialise py input = .ok text) ∧ ∃ text, serialise py output = .ok text
  | .finish output _ => ∃ text, serialise py output = .ok text
  | .exit exc => ∃ error, excText exc = .ok error

/-- The error a terminating call finishes with. -/
def verdict : SpanOp → Option (Option String)
  | .recordTool .. => none
  | .finish _ error => some error
  | .exit (some (.ok text)) => some (some text)
  | .exit _ => some none

/-- The tool that is recorded. -/
def toolName : SpanOp → Option PyVal
  | .recordTool name _ _ => some name
  | _ => none

/-- `None`, and `False` of `__exit__`. -/
def answer : SpanOp → SpanAnswer
  | .exit _ => .ok (some false)
  | _ => .ok none

end SpanOp

/-- The verdict of the first terminating call. -/
def firstVerdict (ops : List SpanOp) : Option (Option String) := ops.findSome? SpanOp.verdict

/-- The calls before the first terminating one. -/
def beforeVerdict (ops : List SpanOp) : List SpanOp := ops.takeWhile (·.verdict.isNone)

namespace OtelCall

def isEnd : OtelCall → Bool
  | .endSpan => true
  | _ => false

/-- The status that is set. -/
def status : OtelCall → Option (StatusCode × Option String)
  | .setStatus code description => some (code, description)
  | _ => none

/-- The tool of a `tool` event. -/
def toolName : OtelCall → Option PyVal
  | .addEvent "tool" attributes => (attributes.find? (·.1 = "tool.name")).map (·.2)
  | _ => none

end OtelCall

/-- The status a verdict is recorded as. -/
def statusOf : (error : Option String) → StatusCode × Option String
  | some error => (.error, some error)
  | none => (.ok, none)

/-- The calls before the span is ended. -/
def beforeEnd (calls : List OtelCall) : List OtelCall := calls.takeWhile (!·.isEnd)

/-! ## One call -/

section Effects

variable {py : TextLib} {op : SpanOp} {s : OtelTraceSpan} {r : TraceRecord PyVal}

/-- Calls that set attributes only. -/
def Attributes (calls : List OtelCall) : Prop :=
  ∀ c ∈ calls, ∃ key value, c = .setAttribute key value

theorem attributes_textCalls (text : String × Bool) : Attributes (textCalls text) := by
  intro c hc
  rcases List.mem_cons.mp hc with rfl | hc
  · exact ⟨_, _, rfl⟩
  · cases hcut : text.2 with
    | true =>
      rw [hcut, if_pos rfl, List.mem_singleton] at hc
      exact ⟨_, _, hc⟩
    | false =>
      rw [hcut, if_neg Bool.false_ne_true] at hc
      cases hc

/-- A verdict is a status, with attributes after it. -/
theorem verdictCalls_status {output : PyVal} {error : Option String}
    (h : ∃ text, serialise py output = .ok text) : ∃ attributes, Attributes attributes ∧
      verdictCalls py output error =
        .ok (.setStatus (statusOf error).1 (statusOf error).2 :: attributes) := by
  cases error with
  | some error =>
    refine ⟨[.setAttribute "claw.error" (.str error)], ?_, rfl⟩
    intro c hc
    exact ⟨_, _, List.mem_singleton.mp hc⟩
  | none =>
    by_cases hnone : output = .none
    · subst hnone
      exact ⟨[], fun c hc => absurd hc List.not_mem_nil, rfl⟩
    · obtain ⟨text, htext⟩ := h
      refine ⟨textCalls text, attributes_textCalls text, ?_⟩
      rw [verdictCalls, outputCalls_given hnone, htext]
      rfl

theorem otelStep_tool {name input output : PyVal}
    (h : (SpanOp.recordTool name input output).Harmless py) (s : OtelTraceSpan) :
    ∃ attrs, otelStep py (.recordTool name input output) s =
      (.ok none, s.after [.addEvent "tool" (("tool.name", name) :: attrs)]) := by
  obtain ⟨inputAttrs, hin⟩ := (toolAttributes_returns "tool.input").mpr (serialise_returns.mp h.1)
  obtain ⟨outputAttrs, hout⟩ :=
    (toolAttributes_returns "tool.output").mpr (serialise_returns.mp h.2)
  exact ⟨inputAttrs ++ outputAttrs, by rw [otelStep, recordTool_ok hin hout]; rfl⟩

/-- A terminating call on a span that was finished does nothing. -/
theorem otelStep_ended {error : Option String} (hv : op.verdict = some error)
    (hended : s.ended = true) : otelStep py op s = (op.answer, s) := by
  cases op with
  | recordTool name input output => cases hv
  | finish output error => rw [otelStep, finish_ended hended]; rfl
  | exit exc => rw [otelStep, exit_ended hended]; rfl

/-- The verdict of an exception whose text is known. -/
theorem verdict_exit {exc : Option (Except Thrown String)} {error error' : Option String}
    (hexc : excText exc = .ok error) (hv : (SpanOp.exit exc).verdict = some error') :
    error = error' := by
  cases exc with
  | none =>
    cases hexc
    exact Option.some.inj hv
  | some text =>
    cases text with
    | error e => cases hexc
    | ok text =>
      cases hexc
      exact Option.some.inj hv

/-- The first terminating call sets the status and ends the span. -/
theorem otelStep_open {error : Option String} (hv : op.verdict = some error)
    (h : op.Harmless py) (hopen : s.ended = false) : ∃ attributes, Attributes attributes ∧
      otelStep py op s = (op.answer, ⟨true, s.calls ++
        (.setStatus (statusOf error).1 (statusOf error).2 :: attributes) ++ [.endSpan]⟩) := by
  cases op with
  | recordTool name input output => cases hv
  | finish output error' =>
    cases hv
    obtain ⟨attributes, hattributes, hcalls⟩ := verdictCalls_status h
    exact ⟨attributes, hattributes, by rw [otelStep, finish_open hopen hcalls]; rfl⟩
  | exit exc =>
    obtain ⟨error', hexc⟩ := h
    obtain rfl := verdict_exit hexc hv
    obtain ⟨attributes, hattributes, hcalls⟩ : ∃ attributes, Attributes attributes ∧
        verdictCalls py .none error' = _ :=
      verdictCalls_status (serialise_returns.mpr (renders_none py))
    exact ⟨attributes, hattributes, by rw [otelStep, exit_open hopen hexc hcalls]; rfl⟩

theorem memoryStep_ended {error : Option String} (hv : op.verdict = some error)
    (hfinished : r.finished = true) : memoryStep op r = (op.answer, r) := by
  cases op with
  | recordTool name input output => cases hv
  | finish output error => rw [memoryStep, TraceRecord.finish, if_pos hfinished]; rfl
  | exit exc => rw [memoryStep, TraceRecord.exit, if_pos hfinished]; rfl

theorem memoryStep_open {error : Option String} (hv : op.verdict = some error)
    (h : op.Harmless py) (hopen : r.finished = false) : ∃ output,
      memoryStep op r = (op.answer, { r with output, error, finished := true }) := by
  have hopen' : ¬ r.finished = true := by
    rw [hopen]
    exact Bool.false_ne_true
  cases op with
  | recordTool name input output => cases hv
  | finish output error' =>
    cases hv
    exact ⟨given output, by rw [memoryStep, TraceRecord.finish, if_neg hopen']; rfl⟩
  | exit exc =>
    obtain ⟨error', hexc⟩ := h
    obtain rfl := verdict_exit hexc hv
    refine ⟨none, ?_⟩
    rw [memoryStep, TraceRecord.exit, if_neg hopen', hexc]
    simp only [TraceRecord.finish, if_neg hopen']
    rfl

end Effects

/-! ## Agreement -/

/-- What two spans have in common after the same calls. -/
structure Agree (ops : List SpanOp) (s : OtelTraceSpan) (r : TraceRecord PyVal) : Prop where
  ended : s.ended = (firstVerdict ops).isSome
  finished : r.finished = (firstVerdict ops).isSome
  /-- The span below is ended once if a call terminates, and else not at all. -/
  ends : s.calls.countP (·.isEnd) = (firstVerdict ops).toList.length
  statuses : s.calls.filterMap (·.status) = (firstVerdict ops).toList.map statusOf
  error : r.error = (firstVerdict ops).join
  events : s.calls.filterMap (·.toolName) = ops.filterMap (·.toolName)
  tools : r.tools.map (·.name) = ops.filterMap (·.toolName)
  before : (beforeEnd s.calls).filterMap (·.toolName) =
    (beforeVerdict ops).filterMap (·.toolName)

section Histories

variable {ops : List SpanOp} {op : SpanOp} {calls more : List OtelCall} {error : Option String}

/-- What is taken stops at an element that fails, whatever is behind. -/
theorem takeWhile_stopped {A : Type} {p : A → Bool} {xs : List A} (ys : List A)
    (h : ∃ x ∈ xs, p x = false) : (xs ++ ys).takeWhile p = xs.takeWhile p := by
  obtain ⟨x, hx, hp⟩ := h
  induction xs with
  | nil => cases hx
  | cons y xs ih =>
    rw [List.cons_append, List.takeWhile_cons, List.takeWhile_cons]
    rcases List.mem_cons.mp hx with rfl | hx
    · rw [hp]; rfl
    · rw [ih hx]

theorem firstVerdict_snoc (ops : List SpanOp) (op : SpanOp) :
    firstVerdict (ops ++ [op]) = (firstVerdict ops).or op.verdict := by
  rw [firstVerdict, List.findSome?_append, List.findSome?_singleton, firstVerdict]

/-- A verdict stands, whatever follows. -/
theorem firstVerdict_append {v : Option String} (h : firstVerdict ops = some v)
    (later : List SpanOp) : firstVerdict (ops ++ later) = some v := by
  rw [firstVerdict, List.findSome?_append, ← firstVerdict, h, Option.some_or]

theorem beforeVerdict_none (h : firstVerdict ops = none) (later : List SpanOp) :
    beforeVerdict (ops ++ later) = ops ++ beforeVerdict later := by
  refine List.takeWhile_append_of_pos fun op hop => ?_
  rw [List.findSome?_eq_none_iff.mp h op hop]
  rfl

theorem beforeVerdict_some {v : Option String} (h : firstVerdict ops = some v)
    (later : List SpanOp) : beforeVerdict (ops ++ later) = beforeVerdict ops := by
  obtain ⟨op, hop, hverdict⟩ := List.exists_of_findSome?_eq_some h
  exact takeWhile_stopped later ⟨op, hop, by rw [hverdict]; rfl⟩

theorem beforeEnd_none (h : calls.countP (·.isEnd) = 0) (more : List OtelCall) :
    beforeEnd (calls ++ more) = calls ++ beforeEnd more := by
  refine List.takeWhile_append_of_pos fun c hc => ?_
  rw [Bool.not_eq_true', ← Bool.not_eq_true]
  exact List.countP_eq_zero.mp h c hc

theorem beforeEnd_some (h : 0 < calls.countP (·.isEnd)) (more : List OtelCall) :
    beforeEnd (calls ++ more) = beforeEnd calls := by
  obtain ⟨c, hc, hend⟩ := List.countP_pos_iff.mp h
  exact takeWhile_stopped more ⟨c, hc, by rw [hend]; rfl⟩

/-- A terminating call records no tool. -/
theorem toolName_verdict (h : op.verdict = some error) : op.toolName = none := by
  cases op with
  | recordTool name input output => cases h
  | _ => rfl

end Histories

namespace Agree

variable {ops : List SpanOp} {op : SpanOp} {s : OtelTraceSpan} {r : TraceRecord PyVal}

/-- Before any call. -/
theorem start (name : String) (dims : TraceDims) (input : String) (metadata : TraceMetadata) :
    Agree [] {} { name, dims, input, metadata } :=
  ⟨rfl, rfl, rfl, rfl, rfl, rfl, rfl, rfl⟩

/-- A tool is recorded on both. -/
theorem tool (h : Agree ops s r) (name input output : PyVal) (attrs : List (String × PyVal))
    (input' output' : Option PyVal) :
    Agree (ops ++ [.recordTool name input output])
      (s.after [.addEvent "tool" (("tool.name", name) :: attrs)])
      (r.recordTool name input' output') := by
  have hverdict : firstVerdict (ops ++ [.recordTool name input output]) = firstVerdict ops := by
    rw [firstVerdict_snoc, SpanOp.verdict, Option.or_none]
  refine ⟨?_, ?_, ?_, ?_, ?_, ?_, ?_, ?_⟩
  · rw [hverdict]; exact h.ended
  · rw [hverdict]; exact h.finished
  · rw [hverdict, ← h.ends, after, List.countP_append]
    rfl
  · rw [hverdict, ← h.statuses, after, List.filterMap_append]
    exact List.append_nil _
  · rw [hverdict]; exact h.error
  · rw [after, List.filterMap_append, List.filterMap_append, h.events]
    rfl
  · rw [TraceRecord.recordTool, List.map_append, List.filterMap_append, h.tools]
    rfl
  · have hends := h.ends
    cases hfirst : firstVerdict ops with
    | none =>
      rw [hfirst] at hends
      rw [beforeVerdict_none hfirst, after, beforeEnd_none hends, List.filterMap_append,
        List.filterMap_append, h.events]
      rfl
    | some v =>
      rw [hfirst] at hends
      rw [beforeVerdict_some hfirst, after, beforeEnd_some (hends ▸ Nat.one_pos)]
      exact h.before

/-- Once there is a verdict, a terminating call changes nothing. -/
theorem late (h : Agree ops s r) {v error : Option String} (hfirst : firstVerdict ops = some v)
    (hv : op.verdict = some error) : Agree (ops ++ [op]) s r := by
  have hverdict : firstVerdict (ops ++ [op]) = firstVerdict ops := by
    rw [firstVerdict_append hfirst, hfirst]
  have htools : (ops ++ [op]).filterMap (·.toolName) = ops.filterMap (·.toolName) := by
    rw [List.filterMap_append, List.filterMap_cons, toolName_verdict hv]
    exact List.append_nil _
  refine ⟨?_, ?_, ?_, ?_, ?_, ?_, ?_, ?_⟩
  · rw [hverdict]; exact h.ended
  · rw [hverdict]; exact h.finished
  · rw [hverdict]; exact h.ends
  · rw [hverdict]; exact h.statuses
  · rw [hverdict]; exact h.error
  · rw [htools]; exact h.events
  · rw [htools]; exact h.tools
  · rw [beforeVerdict_some hfirst]; exact h.before

/-- The first terminating call gives both their verdict. -/
theorem first (h : Agree ops s r) {error : Option String} (hfirst : firstVerdict ops = none)
    (hv : op.verdict = some error) {attributes : List OtelCall}
    (hattributes : Attributes attributes) (output : Option PyVal) :
    Agree (ops ++ [op])
      ⟨true, s.calls ++ (.setStatus (statusOf error).1 (statusOf error).2 :: attributes) ++
        [.endSpan]⟩
      { r with output, error, finished := true } := by
  have hverdict : firstVerdict (ops ++ [op]) = some error := by
    rw [firstVerdict_snoc, hfirst, Option.none_or, hv]
  have htools : (ops ++ [op]).filterMap (·.toolName) = ops.filterMap (·.toolName) := by
    rw [List.filterMap_append, List.filterMap_cons, toolName_verdict hv]
    exact List.append_nil _
  have hends : s.calls.countP (·.isEnd) = 0 := by rw [h.ends, hfirst]; rfl
  have hstatuses : s.calls.filterMap (·.status) = [] := by rw [h.statuses, hfirst]; rfl
  have hnoEnd : attributes.countP (·.isEnd) = 0 := by
    refine List.countP_eq_zero.mpr fun c hc => ?_
    obtain ⟨key, value, rfl⟩ := hattributes c hc
    exact Bool.false_ne_true
  have hnoStatus : attributes.filterMap (·.status) = [] := by
    refine List.filterMap_eq_nil_iff.mpr fun c hc => ?_
    obtain ⟨key, value, rfl⟩ := hattributes c hc
    rfl
  have hnoTool : attributes.filterMap (·.toolName) = [] := by
    refine List.filterMap_eq_nil_iff.mpr fun c hc => ?_
    obtain ⟨key, value, rfl⟩ := hattributes c hc
    rfl
  have hadded : ((OtelCall.setStatus (statusOf error).1 (statusOf error).2 :: attributes) ++
      [OtelCall.endSpan]).filterMap (·.toolName) = [] := by
    rw [List.filterMap_append, List.filterMap_cons, hnoTool]
    rfl
  refine ⟨?_, ?_, ?_, ?_, ?_, ?_, ?_, ?_⟩
  · rw [hverdict]; rfl
  · rw [hverdict]; rfl
  · rw [hverdict, List.countP_append, List.countP_append, List.countP_cons, hends, hnoEnd]
    rfl
  · rw [hverdict, List.filterMap_append, List.filterMap_append, List.filterMap_cons, hstatuses,
      hnoStatus]
    rfl
  · rw [hverdict]; rfl
  · rw [htools, List.append_assoc, List.filterMap_append, hadded, List.append_nil]
    exact h.events
  · rw [htools]; exact h.tools
  · have hbefore : beforeVerdict [op] = [] := by
      rw [beforeVerdict, List.takeWhile_cons, hv]
      rfl
    rw [beforeVerdict_none hfirst, hbefore, List.append_nil, List.append_assoc,
      beforeEnd_none hends, List.filterMap_append, h.events]
    refine List.append_right_eq_self.mpr ?_
    refine List.filterMap_eq_nil_iff.mpr fun c hc => ?_
    exact List.filterMap_eq_nil_iff.mp hadded c ((List.takeWhile_prefix _).subset hc)

/-- **Every harmless call keeps the agreement**, and is answered alike. -/
theorem step {py : TextLib} (h : Agree ops s r) (hop : op.Harmless py) :
    (otelStep py op s).1 = op.answer ∧ (memoryStep op r).1 = op.answer ∧
      Agree (ops ++ [op]) (otelStep py op s).2 (memoryStep op r).2 := by
  cases hv : op.verdict with
  | none =>
    cases op with
    | recordTool name input output =>
      obtain ⟨attrs, hstep⟩ := otelStep_tool hop s
      rw [hstep]
      exact ⟨rfl, rfl, h.tool name input output attrs _ _⟩
    | finish output error => cases hv
    | exit exc =>
      rcases exc with _ | _ | text
      all_goals cases hv
  | some error =>
    cases hfirst : firstVerdict ops with
    | none =>
      have hs : s.ended = false := by rw [h.ended, hfirst]; rfl
      have hr : r.finished = false := by rw [h.finished, hfirst]; rfl
      obtain ⟨attributes, hattributes, hstep⟩ := otelStep_open hv hop hs
      obtain ⟨output, hmemory⟩ := memoryStep_open hv hop hr
      rw [hstep, hmemory]
      exact ⟨rfl, rfl, h.first hfirst hv hattributes output⟩
    | some v =>
      have hs : s.ended = true := by rw [h.ended, hfirst]; rfl
      have hr : r.finished = true := by rw [h.finished, hfirst]; rfl
      rw [otelStep_ended hv hs, memoryStep_ended hv hr]
      exact ⟨rfl, rfl, h.late hfirst hv⟩

/-- The agreement along a run of harmless calls. -/
theorem run {py : TextLib} (h : Agree [] s r) (hops : ∀ op ∈ ops, op.Harmless py) :
    (observe (otelStep py) s ops).1 = ops.map (·.answer) ∧
      (observe memoryStep r ops).1 = ops.map (·.answer) ∧
      Agree ops (observe (otelStep py) s ops).2 (observe memoryStep r ops).2 := by
  induction ops using List.reverseRecOn with
  | nil => exact ⟨rfl, rfl, h⟩
  | append_singleton ops op ih =>
    obtain ⟨hotel, hmemory, hagree⟩ := ih fun op hop => hops op (List.mem_append_left _ hop)
    obtain ⟨hotel', hmemory', hagree'⟩ :=
      hagree.step (hops op (List.mem_append_right _ List.mem_cons_self))
    simp only [observe_snoc, List.map_append, List.map_cons, List.map_nil]
    exact ⟨by rw [hotel, hotel'], by rw [hmemory, hmemory'], hagree'⟩

end Agree

/-- **A `MemorySpan` and an `OtelTraceSpan` agree** after any calls: they are finished together, the
span below is ended once, the verdict is the first and stands, the tools before it are the same, and
every call returns, `__exit__` with `False`. -/
theorem spans_agree (py : TextLib) (name : String) (dims : TraceDims) (input : String)
    (metadata : TraceMetadata) (ops : List SpanOp) (h : ∀ op ∈ ops, op.Harmless py) :
    let otel := observe (otelStep py) {} ops
    let memory := observe memoryStep { name, dims, input, metadata } ops
    otel.1 = ops.map (·.answer) ∧ memory.1 = ops.map (·.answer) ∧ Agree ops otel.2 memory.2 ∧
      ((observe memoryStep { name, dims, input, metadata } (beforeVerdict ops)).2.tools.map
        (·.name) = (beforeEnd otel.2.calls).filterMap (·.toolName)) ∧
      ∀ earlier later, ops = earlier ++ later → (firstVerdict earlier).isSome = true →
        otel.2.calls.filterMap (·.status) =
            (observe (otelStep py) {} earlier).2.calls.filterMap (·.status) ∧
          memory.2.error =
            (observe memoryStep { name, dims, input, metadata } earlier).2.error := by
  intro otel memory
  have hstart := Agree.start name dims input metadata
  have hagree : ∀ part, part ⊆ ops → Agree part (observe (otelStep py) {} part).2
      (observe memoryStep { name, dims, input, metadata } part).2 := fun part hpart =>
    (hstart.run fun op hop => h op (hpart hop)).2.2
  obtain ⟨hotel, hmemory, hall⟩ := hstart.run h
  have hbefore := hagree (beforeVerdict ops) (List.takeWhile_prefix _).subset
  refine ⟨hotel, hmemory, hall, hbefore.tools.trans hall.before.symm, ?_⟩
  rintro earlier later rfl hverdict
  obtain ⟨v, hv⟩ := Option.isSome_iff_exists.mp hverdict
  have hearlier := hagree earlier (List.subset_append_left _ _)
  have hsame : firstVerdict (earlier ++ later) = firstVerdict earlier := by
    rw [firstVerdict_append hv, hv]
  exact ⟨by rw [hall.statuses, hearlier.statuses, hsame],
    by rw [hall.error, hearlier.error, hsame]⟩

/-- A tool, a `finish` with an error, and a block that ends with another exception. -/
def lateExit : List SpanOp :=
  [.recordTool (.str "Bash") (.list [.str "ls"]) .none, .finish .none (some "timeout"),
    .recordTool (.str "Read") .none .none, .exit (some (.ok "cancelled"))]

/-- The error of the `finish` stays, and the span is ended once. -/
theorem spans_agree_late :
    let otel := observe (otelStep plainText) {} lateExit
    let memory := observe memoryStep ⟨"turn", {}, "", ∅, [], none, none, false⟩ lateExit
    otel.1 = memory.1 ∧ otel.2.calls.countP (·.isEnd) = 1 ∧
      otel.2.calls.filterMap (·.status) = [(.error, some "timeout")] ∧
      memory.2.error = some "timeout" := by
  have hharmless : ∀ op ∈ lateExit, op.Harmless plainText := by
    simp only [lateExit, List.forall_mem_cons]
    exact ⟨⟨⟨_, rfl⟩, ⟨_, rfl⟩⟩, ⟨_, rfl⟩, ⟨⟨_, rfl⟩, ⟨_, rfl⟩⟩, ⟨_, rfl⟩, fun op hop => by cases hop⟩
  obtain ⟨hotel, hmemory, hagree, -⟩ := spans_agree plainText "turn" {} "" ∅ lateExit hharmless
  exact ⟨hotel.trans hmemory.symm, hagree.ends, hagree.statuses, hagree.error⟩

end ClawEngine.Observability
