import ClawEngine.Orchestration.Engine

/-!
# What a turn shows and records

A turn under a `MemoryTracer`: where the event loop leaves the stream, what the callback was shown
until then, and what the record of the turn says afterwards.

The code keeps neither the callback's calls nor the span's. `Engine.watched` is an engine that
does: its world carries the calls of the callback, its traces the calls of the span, and a turn of
it is a turn of the engine otherwise (`runTurn_watched`).
-/

set_option autoImplicit false

namespace ClawEngine.Observability

open ClawEngine.Core

variable {V τ σ : Type}

/-! ## The calls made on a span -/

/-- A call of a span's method. -/
inductive SpanCall (V : Type)
  | recordTool (tool : ToolRecord V)
  | finish (output : Option V) (error : Option String)
  | exit (exc : Option (Except Thrown String))

/-- A tracer that keeps the calls made on its spans, oldest first. -/
def Tracer.logged (tracer : Tracer V τ σ) : Tracer V (τ × List (SpanCall V)) σ where
  startTrace name dims input metadata t :=
    ((tracer.startTrace name dims input metadata t.1).1,
      ((tracer.startTrace name dims input metadata t.1).2, t.2))
  recordTool span name input output t :=
    (tracer.recordTool span name input output t.1, t.2 ++ [.recordTool ⟨name, input, output⟩])
  finish span output error t :=
    (tracer.finish span output error t.1, t.2 ++ [.finish output error])
  exit span exc t :=
    ((tracer.exit span exc t.1).1, ((tracer.exit span exc t.1).2, t.2 ++ [.exit exc]))
  asksText span t := tracer.asksText span t.1
  asksOpen := tracer.asksOpen
  exit_answer span exc t := tracer.exit_answer span exc t.1
  asksText_start name dims input metadata t :=
    tracer.asksText_start name dims input metadata t.1
  asksText_recordTool span name input output t :=
    tracer.asksText_recordTool span name input output t.1

/-- A record after one call on its span. -/
def TraceRecord.after (r : TraceRecord V) : SpanCall V → TraceRecord V
  | .recordTool tool => r.recordTool tool.name tool.input tool.output
  | .finish output error => r.finish output error
  | .exit exc => (r.exit exc).2

/-- A record after the calls on its span. -/
def TraceRecord.replay (r : TraceRecord V) (calls : List (SpanCall V)) : TraceRecord V :=
  calls.foldl TraceRecord.after r

/-- How often a call runs `MemorySpan.finish`: `__exit__` does so on an unfinished record, once it has
the text of the exception. -/
def TraceRecord.finishesAt (r : TraceRecord V) : SpanCall V → Nat
  | .recordTool _ => 0
  | .finish _ _ => 1
  | .exit exc => if r.finished then 0 else ((excText exc).toOption.map fun _ => 1).getD 0

/-- How often the calls run `MemorySpan.finish`. -/
def TraceRecord.finishes : TraceRecord V → List (SpanCall V) → Nat
  | _, [] => 0
  | r, call :: calls => r.finishesAt call + (r.after call).finishes calls

theorem TraceRecord.replay_append (r : TraceRecord V) (l l' : List (SpanCall V)) :
    r.replay (l ++ l') = (r.replay l).replay l' :=
  List.foldl_append

theorem TraceRecord.finishes_append (r : TraceRecord V) (l l' : List (SpanCall V)) :
    r.finishes (l ++ l') = r.finishes l + (r.replay l).finishes l' := by
  induction l generalizing r with
  | nil => simp [finishes, replay]
  | cons call calls ih =>
    have h := ih (r.after call)
    simp only [List.cons_append, finishes, h, replay, List.foldl_cons]
    omega

/-- Tools are appended and change nothing else. -/
theorem TraceRecord.replay_tools (r : TraceRecord V) (tools : List (ToolRecord V)) :
    r.replay (tools.map .recordTool) = { r with tools := r.tools ++ tools } := by
  induction tools generalizing r with
  | nil => simp [replay]
  | cons tool tools ih =>
    have h := ih (r.after (.recordTool tool))
    simp only [List.map_cons, replay, List.foldl_cons] at h ⊢
    rw [h]
    simp [after, recordTool]

theorem TraceRecord.finishes_tools (r : TraceRecord V) (tools : List (ToolRecord V)) :
    r.finishes (tools.map .recordTool) = 0 := by
  induction tools generalizing r with
  | nil => rfl
  | cons tool tools ih =>
    have h := ih (r.after (.recordTool tool))
    simp only [List.map_cons, finishes, finishesAt, h]

/-- A span that is finished inside its `with` block. -/
theorem TraceRecord.closed_by_finish {r : TraceRecord V} (hopen : r.finished = false)
    (tools : List (ToolRecord V)) (output : Option V) (error : Option String)
    (exc : Option (Except Thrown String)) :
    r.replay (tools.map .recordTool ++ [.finish output error, .exit exc]) =
        { r with tools := r.tools ++ tools, output, error, finished := true } ∧
      r.finishes (tools.map .recordTool ++ [.finish output error, .exit exc]) = 1 := by
  rw [replay_append, finishes_append, replay_tools, finishes_tools]
  simp [replay, finishes, finishesAt, after, finish, exit, hopen]

/-- A span that only `__exit__` finishes, with the text of the exception. -/
theorem TraceRecord.closed_by_exit {r : TraceRecord V} (hopen : r.finished = false)
    (tools : List (ToolRecord V)) (text : String) :
    r.replay (tools.map .recordTool ++ [.exit (some (.ok text))]) =
        { r with tools := r.tools ++ tools, output := none, error := some text, finished := true } ∧
      r.finishes (tools.map .recordTool ++ [.exit (some (.ok text))]) = 1 := by
  have htext : excText (some (.ok text)) = .ok (some text) := rfl
  rw [replay_append, finishes_append, replay_tools, finishes_tools]
  simp [replay, finishes, finishesAt, after, finish, exit, hopen, htext, Except.toOption]

section OneSpan

variable (pre : List (TraceRecord V)) (fresh : TraceRecord V)

/-- The records a `MemoryTracer` had, and one more, as the calls on its span left it. -/
def Holds (t : List (TraceRecord V) × List (SpanCall V)) : Prop :=
  t.1 = pre ++ [fresh.replay t.2]

variable {pre fresh}

theorem modify_last (f : TraceRecord V → TraceRecord V) (r : TraceRecord V) :
    (pre ++ [r]).modify pre.length f = pre ++ [f r] := by
  induction pre with
  | nil => rfl
  | cons first others ih => simpa using ih

theorem Holds.after {t : List (TraceRecord V) × List (SpanCall V)} (h : Holds pre fresh t)
    (call : SpanCall V) :
    Holds pre fresh (t.1.modify pre.length (·.after call), t.2 ++ [call]) := by
  have hreplay : fresh.replay (t.2 ++ [call]) = (fresh.replay t.2).after call :=
    TraceRecord.replay_append fresh t.2 [call]
  rw [Holds, hreplay, h, modify_last]

theorem Holds.recordTool {t : List (TraceRecord V) × List (SpanCall V)} (h : Holds pre fresh t)
    (name : V) (input output : Option V) :
    Holds pre fresh (memoryTracer.logged.recordTool pre.length name input output t) :=
  h.after (.recordTool ⟨name, input, output⟩)

theorem Holds.finish {t : List (TraceRecord V) × List (SpanCall V)} (h : Holds pre fresh t)
    (output : Option V) (error : Option String) :
    Holds pre fresh (memoryTracer.logged.finish pre.length output error t) :=
  h.after (.finish output error)

theorem Holds.exit {t : List (TraceRecord V) × List (SpanCall V)} (h : Holds pre fresh t)
    (exc : Option (Except Thrown String)) :
    Holds pre fresh (memoryTracer.logged.exit pre.length exc t).2 :=
  h.after (.exit exc)

end OneSpan

end ClawEngine.Observability

namespace ClawEngine.Orchestration

open ClawEngine.Core ClawEngine.Runtime ClawEngine.Observability

variable {V ω τ σ : Type}

/-! ## Watching a turn -/

/-- A call of the callback: the event it was shown and the exception it raised. -/
structure Shown (V : Type) where
  event : AgentEvent V
  raised : Option (Raised V)

/-- A callback that keeps its calls, oldest first. -/
def watch (onEvent : OnEvent V ω) : OnEvent V (ω × List (Shown V)) :=
  onEvent.map fun f event w =>
    ((f event w.1).1, ((f event w.1).2, w.2 ++ [⟨event, (f event w.1).1⟩]))

def Backend.watched (b : Backend V ω) : Backend V (ω × List (Shown V)) where
  capabilities := b.capabilities
  run req w := ((b.run req w.1).1, ((b.run req w.1).2, w.2))

def Engine.watched (e : Engine V ω τ σ) :
    Engine V (ω × List (Shown V)) (τ × List (SpanCall V)) σ where
  registry name := (e.registry name).map Backend.watched
  tracer := e.tracer.logged

def EngineState.watched (s : EngineState V ω τ) :
    EngineState V (ω × List (Shown V)) (τ × List (SpanCall V)) :=
  { world := (s.world, []), traces := (s.traces, []), sent := s.sent }

def EngineState.unwatched (s : EngineState V (ω × List (Shown V)) (τ × List (SpanCall V))) :
    EngineState V ω τ :=
  { world := s.world.1, traces := s.traces.1, sent := s.sent }

def LoopState.unwatched (st : LoopState V (ω × List (Shown V)) (τ × List (SpanCall V))) :
    LoopState V ω τ :=
  { result := st.result, world := st.world.1, traces := st.traces.1 }

section Unwatched

variable (tracer : Tracer V τ σ) (span : σ) (caps : BackendCapabilities) (onEvent : OnEvent V ω)
variable (raised : Option (Raised V))
variable (st : LoopState V (ω × List (Shown V)) (τ × List (SpanCall V)))

theorem callOnEvent_watched (event : AgentEvent V) :
    ((callOnEvent (watch onEvent) event st).1,
      (callOnEvent (watch onEvent) event st).2.unwatched) =
      callOnEvent onEvent event st.unwatched := by
  cases onEvent <;> rfl

theorem recordTool_watched (event : AgentEvent V) :
    (recordTool tracer.logged span event st).unwatched =
      recordTool tracer span event st.unwatched := by
  unfold recordTool
  split
  · rfl
  · rfl

theorem onTerminal_watched (event : AgentEvent V) :
    ((onTerminal tracer.logged span event st).1,
      (onTerminal tracer.logged span event st).2.unwatched) =
      onTerminal tracer span event st.unwatched := by
  unfold onTerminal
  cases event.kind <;> try rfl
  case turnCompleted => cases event.result <;> rfl
  case error => cases event.error <;> rfl

theorem consumeEvent_watched (event : AgentEvent V) :
    ((consumeEvent tracer.logged span caps (watch onEvent) event st).1,
      (consumeEvent tracer.logged span caps (watch onEvent) event st).2.unwatched) =
      consumeEvent tracer span caps onEvent event st.unwatched := by
  unfold consumeEvent
  split
  · rfl
  · rw [← callOnEvent_watched onEvent st event]
    cases h : callOnEvent (watch onEvent) event st with
    | mk exc st' =>
      cases exc with
      | some exc => rfl
      | none =>
        simp only
        rw [← recordTool_watched]
        exact onTerminal_watched tracer span _ event

theorem consume_watched (events : List (AgentEvent V)) :
    ((consume tracer.logged span caps (watch onEvent) raised events st).1,
      (consume tracer.logged span caps (watch onEvent) raised events st).2.unwatched) =
      consume tracer span caps onEvent raised events st.unwatched := by
  induction events generalizing st with
  | nil => cases raised <;> rfl
  | cons event events ih =>
    simp only [consume]
    rw [← consumeEvent_watched tracer span caps onEvent st event]
    cases h : consumeEvent tracer.logged span caps (watch onEvent) event st with
    | mk answer st' =>
      cases answer with
      | error exc => rfl
      | ok _ => exact ih st'

theorem exitBlock_watched (answer : Except (Raised V) (AgentRunResult V)) :
    ((exitBlock tracer.logged span answer st).1,
      (exitBlock tracer.logged span answer st).2.unwatched) =
      exitBlock tracer span answer st.unwatched := by
  rcases hexit : tracer.exit span ((raisedOf answer).map Raised.str) st.traces.1 with ⟨left, traces⟩
  have hlogged : tracer.logged.exit span ((raisedOf answer).map Raised.str) st.traces =
      (left, (traces, st.traces.2 ++ [.exit ((raisedOf answer).map Raised.str)])) := by
    show (Prod.fst _, (Prod.snd _, _)) = _
    rw [hexit]
  have hplain : tracer.exit span ((raisedOf answer).map Raised.str) st.unwatched.traces =
      (left, traces) := hexit
  unfold exitBlock
  rw [hlogged, hplain]
  cases left <;> rfl

theorem traced_watched (stream : EventStream V (Raised V)) :
    ((traced tracer.logged span caps (watch onEvent) stream st).1,
      (traced tracer.logged span caps (watch onEvent) stream st).2.unwatched) =
      traced tracer span caps onEvent stream st.unwatched := by
  unfold traced
  rw [← consume_watched tracer span caps onEvent stream.raised st stream.events]
  cases h : consume tracer.logged span caps (watch onEvent) stream.raised stream.events st with
  | mk answer st' =>
    cases answer with
    | error exc => exact exitBlock_watched tracer span st' (.error exc)
    | ok _ =>
      have hconclude : ((conclude tracer.logged span st').1,
          (conclude tracer.logged span st').2.unwatched) = conclude tracer span st'.unwatched := by
        cases hr : st'.result <;> simp only [conclude, LoopState.unwatched, hr, Tracer.logged]
      dsimp only
      rw [← hconclude]
      exact exitBlock_watched tracer span _ _

end Unwatched

/-- **Watching changes nothing**: a turn of the watched engine is the turn of the engine. -/
theorem runTurn_watched (engine : Engine V ω τ σ) (t : TurnArgs V) (onEvent : OnEvent V ω)
    (s : EngineState V ω τ) :
    ((runTurn engine.watched t (watch onEvent) s.watched).1,
      (runTurn engine.watched t (watch onEvent) s.watched).2.unwatched) =
      runTurn engine t onEvent s := by
  cases h : engine.registry t.backendName with
  | none =>
    have h' : engine.watched.registry t.backendName = none := by
      simp only [Engine.watched, h, Option.map_none]
    rw [runTurn_unregistered h, runTurn_unregistered h']
    rfl
  | some backend =>
    have h' : engine.watched.registry t.backendName = some backend.watched := by
      simp only [Engine.watched, h, Option.map_some]
    have hblock := traced_watched engine.tracer
      (engine.tracer.startTrace "agent-turn" (turnDims t) t.prompt t.traceMetadata s.traces).1
      backend.capabilities onEvent
      { result := none
        world := ((backend.run (turnRequest backend.capabilities t) s.world).2, [])
        traces := ((engine.tracer.startTrace "agent-turn" (turnDims t) t.prompt t.traceMetadata
          s.traces).2, []) }
      (backend.run (turnRequest backend.capabilities t) s.world).1
    simp only [LoopState.unwatched] at hblock
    simp only [runTurn, h, h']
    rw [← hblock]
    rfl

/-- The loop's variables in a watched turn under a `MemoryTracer`. -/
abbrev WatchedLoop (V ω : Type) :=
  LoopState V (ω × List (Shown V)) (List (TraceRecord V) × List (SpanCall V))

/-! ## Where the loop leaves the stream -/

/-- An event the loop does not go on from, whatever the callback does: an `ERROR`, or a
`TURN_COMPLETED` without a result. -/
def Stops (event : AgentEvent V) : Prop :=
  event.kind = .error ∨ (event.kind = .turnCompleted ∧ event.result = none)

/-- The events a callback is shown: all, or all but the deltas. -/
def visible (caps : BackendCapabilities) (event : AgentEvent V) : Bool :=
  !(event.kind = .messageDelta && !caps.supportsStreaming)

/-- The tool of a `TOOL_CALL_COMPLETED`. -/
def completedTool (event : AgentEvent V) : Option (ToolRecord V) :=
  if event.kind = .toolCallCompleted then
    event.tool.map fun tool => ⟨tool.name, tool.input, tool.output⟩
  else none

/-- The result of a `TURN_COMPLETED`. -/
def completion (event : AgentEvent V) : Option (AgentRunResult V) :=
  if event.kind = .turnCompleted then event.result else none

/-- How the event loop is left: the iterator is exhausted, the callback raised on an event, or an
event stops the loop. -/
inductive LoopEnd (V : Type)
  | exhausted
  | callback (event : AgentEvent V) (exc : Raised V)
  | stopped (event : AgentEvent V)

namespace LoopEnd

/-- The event the loop was left at. -/
def taken : LoopEnd V → List (AgentEvent V)
  | exhausted => []
  | callback event _ => [event]
  | stopped event => [event]

/-- The event the loop was left at, if the callback did not raise on it. -/
def processed : LoopEnd V → List (AgentEvent V)
  | stopped event => [event]
  | _ => []

/-- The callback's exception. -/
def thrown : LoopEnd V → Option (Raised V)
  | callback _ exc => some exc
  | _ => none

/-- What stopped the loop: the event's error, or an assertion on what it lacks. -/
def stopError (event : AgentEvent V) : Raised V :=
  if event.kind = .error then (event.error.map .agentRunFailed).getD .assertionError
  else .assertionError

/-- How the loop ends: nothing raised, or an exception. -/
def answer (raised : Option (Raised V)) : LoopEnd V → Except (Raised V) Unit
  | exhausted => raised.elim (.ok ()) .error
  | callback _ exc => .error exc
  | stopped event => .error (stopError event)

/-- The call that finishes the span at the event that stops the loop. -/
def closing : LoopEnd V → List (SpanCall V)
  | stopped event =>
    if event.kind = .error then
      (event.error.map fun e => SpanCall.finish none (some (errorText e))).toList
    else []
  | _ => []

/-- A loop can end so, with these events not taken from the iterator. -/
def Fits (caps : BackendCapabilities) (onEvent : OnEvent V ω) (rest : List (AgentEvent V)) :
    LoopEnd V → Prop
  | exhausted => rest = []
  | callback event exc =>
    visible caps event = true ∧ ∃ f w, onEvent = some f ∧ (f event w).1 = some exc
  | stopped event => Stops event

theorem closing_finish {left : LoopEnd V} {call : SpanCall V} {others : List (SpanCall V)}
    (h : left.closing = call :: others) :
    ∃ error, call = .finish none (some error) ∧ others = [] := by
  cases left with
  | exhausted => cases h
  | callback event exc => cases h
  | stopped event =>
    simp only [closing] at h
    split_ifs at h
    cases he : event.error with
    | none => simp [he] at h
    | some e =>
      simp only [he, Option.map_some, Option.toList_some, List.cons.injEq] at h
      exact ⟨errorText e, h.1.symm, h.2.symm⟩

/-- What the loop raises has a text, if the iterator and the callback raise what has one. -/
theorem answer_prints {caps : BackendCapabilities} {onEvent : OnEvent V ω} {left : LoopEnd V}
    {stream : EventStream V (Raised V)} {exc : Raised V} {rest : List (AgentEvent V)}
    (hprints : Printing onEvent stream)
    (hfits : left.Fits caps onEvent rest) (h : left.answer stream.raised = .error exc) :
    exc.Prints := by
  cases left with
  | exhausted =>
    cases hraised : stream.raised with
    | none =>
      rw [hraised] at h
      cases h
    | some exc' =>
      rw [hraised] at h
      cases h
      exact hprints.iterator exc hraised
  | callback event exc' =>
    cases h
    obtain ⟨-, f, w, hf, hraises⟩ := hfits
    exact hprints.callback f hf event w exc hraises
  | stopped event =>
    cases h
    unfold stopError
    split
    · cases event.error <;> exact ⟨_, rfl⟩
    · exact ⟨_, rfl⟩

/-- How the turn ends, after a loop that passed these events. -/
def outcome (raised : Option (Raised V)) (passed : List (AgentEvent V)) (left : LoopEnd V) :
    Except (Raised V) (AgentRunResult V) :=
  match left.answer raised with
  | .error exc => .error exc
  | .ok () => ((passed.filterMap completion).getLast?).elim (.error .noTerminalEvent) .ok

end LoopEnd

section Loop

variable (caps : BackendCapabilities) (called : Bool)

/-- What the callback was shown, when there is one. -/
def shownUpTo (passed : List (AgentEvent V)) (left : LoopEnd V) : List (Shown V) :=
  if called then
    (passed.filter (visible caps)).map (fun event => ⟨event, none⟩) ++
      (left.taken.filter (visible caps)).map fun event => ⟨event, left.thrown⟩
  else []

/-- The calls the loop makes on the span. -/
def callsUpTo (passed : List (AgentEvent V)) (left : LoopEnd V) : List (SpanCall V) :=
  ((passed ++ left.processed).filterMap completedTool).map .recordTool ++ left.closing

variable (pre : List (TraceRecord V)) (fresh : TraceRecord V)

/-- What a loop, or a part of it, does to its variables. -/
structure LoopRan (passed : List (AgentEvent V)) (left : LoopEnd V)
    (st st' : WatchedLoop V ω) : Prop where
  goesOn : ∀ event ∈ passed, ¬ Stops event
  result : st'.result = ((passed.filterMap completion).getLast?).or st.result
  shown : st'.world.2 = st.world.2 ++ shownUpTo caps called passed left
  calls : st'.traces.2 = st.traces.2 ++ callsUpTo passed left
  holds : Holds pre fresh st.traces → Holds pre fresh st'.traces

end Loop

section Step

variable {caps : BackendCapabilities} {pre : List (TraceRecord V)} (fresh : TraceRecord V)
variable {onEvent : OnEvent V ω} {raised : Option (Raised V)}
variable (st : WatchedLoop V ω)

theorem callOnEvent_shown (onEvent : OnEvent V ω) (event : AgentEvent V) :
    ∃ w, callOnEvent (watch onEvent) event st =
      ((callOnEvent (watch onEvent) event st).1,
        { st with world := (w, st.world.2 ++ if onEvent.isSome then
            [⟨event, (callOnEvent (watch onEvent) event st).1⟩] else []) }) := by
  cases onEvent with
  | none => exact ⟨st.world.1, by simp [callOnEvent, watch]⟩
  | some f => exact ⟨_, rfl⟩

theorem callOnEvent_called {event : AgentEvent V} {exc : Raised V}
    (h : (callOnEvent (watch onEvent) event st).1 = some exc) :
    ∃ f w, onEvent = some f ∧ (f event w).1 = some exc := by
  cases onEvent with
  | none => cases h
  | some f => exact ⟨f, st.world.1, rfl, h⟩

/-- A completed tool goes to the span and nowhere else. -/
theorem recordTool_logged (event : AgentEvent V) :
    ∃ t, recordTool memoryTracer.logged pre.length event st = { st with traces := t } ∧
      t.2 = st.traces.2 ++ ((completedTool event).toList.map .recordTool) ∧
      (Holds pre fresh st.traces → Holds pre fresh t) := by
  have hnone : ∀ l : List (SpanCall V), l = l ++ (([] : List (ToolRecord V)).map .recordTool) :=
    fun l => by simp
  unfold recordTool completedTool
  cases hk : event.kind <;> try exact ⟨st.traces, rfl, hnone _, id⟩
  case toolCallCompleted =>
    cases ht : event.tool with
    | none => exact ⟨st.traces, rfl, hnone _, id⟩
    | some tool => exact ⟨_, rfl, rfl, fun h => h.recordTool _ _ _⟩

/-- The branches on terminal events, for an event the callback let through. -/
theorem onTerminal_ran (event : AgentEvent V) :
    (¬ Stops event ∧ onTerminal memoryTracer.logged pre.length event st =
        (.ok (), { st with result := (completion event).or st.result })) ∨
      (Stops event ∧ ∃ t, onTerminal memoryTracer.logged pre.length event st =
          (.error (LoopEnd.stopError event), { st with traces := t }) ∧
        t.2 = st.traces.2 ++ (LoopEnd.stopped event).closing ∧
        (Holds pre fresh st.traces → Holds pre fresh t)) := by
  unfold onTerminal Stops completion LoopEnd.stopError
  cases hk : event.kind <;> try exact .inl ⟨by simp, rfl⟩
  case turnCompleted =>
    cases hr : event.result with
    | none => exact .inr ⟨.inr ⟨rfl, rfl⟩, st.traces, rfl, by simp [LoopEnd.closing, hk], id⟩
    | some result => exact .inl ⟨by simp, rfl⟩
  case error =>
    right
    cases he : event.error with
    | none => exact ⟨.inl rfl, st.traces, rfl, by simp [LoopEnd.closing, he], id⟩
    | some e =>
      refine ⟨.inl rfl, _, rfl, ?_, fun h => h.finish _ _⟩
      simp only [LoopEnd.closing, hk, he, if_true, Option.map_some, Option.toList_some]
      rfl

/-- What the loop did with one event: it went on from it, or was left at it. -/
inductive Consumed (caps : BackendCapabilities) (onEvent : OnEvent V ω)
    (pre : List (TraceRecord V)) (event : AgentEvent V) :
    Except (Raised V) Unit × WatchedLoop V ω → Prop
  | goesOn {st' : WatchedLoop V ω}
    (ran : LoopRan caps onEvent.isSome pre fresh [event] .exhausted st st') :
    Consumed caps onEvent pre event (.ok (), st')
  | leaves (left : LoopEnd V) {exc : Raised V} {st' : WatchedLoop V ω}
    (answers : ∀ raised, left.answer raised = .error exc) (taken : left.taken = [event])
    (fits : ∀ rest, left.Fits caps onEvent rest)
    (ran : LoopRan caps onEvent.isSome pre fresh [] left st st') :
    Consumed caps onEvent pre event (.error exc, st')

/-- An event the callback is shown. -/
theorem consumeEvent_visible {event : AgentEvent V} (hvisible : visible caps event = true) :
    Consumed fresh st caps onEvent pre event
      (consumeEvent memoryTracer.logged pre.length caps (watch onEvent) event st) := by
  have hgated : ¬(event.kind = .messageDelta ∧ caps.supportsStreaming = false) := by
    cases hc : caps.supportsStreaming <;> simp_all [visible]
  rw [consumeEvent, if_neg hgated]
  obtain ⟨w, hcall⟩ := callOnEvent_shown st onEvent event
  rw [hcall]
  cases hexc : (callOnEvent (watch onEvent) event st).1 with
  | some exc =>
    obtain ⟨f, w', hf, hraises⟩ := callOnEvent_called st hexc
    refine .leaves (.callback event exc) (fun _ => rfl) rfl
      (fun _ => ⟨hvisible, f, w', hf, hraises⟩) ?_
    constructor
    · simp
    · simp
    · simp [shownUpTo, LoopEnd.taken, LoopEnd.thrown, hvisible, hf]
    · simp [callsUpTo, LoopEnd.processed, LoopEnd.closing]
    · exact id
  | none =>
    simp only
    obtain ⟨t, htool, hcalls, hholds⟩ := recordTool_logged fresh
      { st with world := (w, st.world.2 ++ if onEvent.isSome then [⟨event, none⟩] else []) } event
    rw [htool]
    obtain ⟨hgoes, hterm⟩ | ⟨hstops, t', hterm, hclosing, hholds'⟩ := onTerminal_ran fresh
      { st with
        world := (w, st.world.2 ++ if onEvent.isSome then [⟨event, none⟩] else [])
        traces := t } event
    · rw [hterm]
      apply Consumed.goesOn
      constructor
      · simpa using hgoes
      · cases hc : completion event <;> simp [hc]
      · simp [shownUpTo, LoopEnd.taken, hvisible]
      · cases hc : completedTool event <;>
          simp [hcalls, callsUpTo, LoopEnd.processed, LoopEnd.closing, hc]
      · exact hholds
    · rw [hterm]
      refine .leaves (.stopped event) (fun _ => rfl) rfl (fun _ => hstops) ?_
      constructor
      · simp
      · simp
      · simp [shownUpTo, LoopEnd.taken, LoopEnd.thrown, hvisible]
      · cases hc : completedTool event <;>
          simp [hcalls, hclosing, callsUpTo, LoopEnd.processed, hc]
      · exact fun h => hholds' (hholds h)

/-- **One event**: the loop goes on from it, or is left at it. -/
theorem consumeEvent_ran (event : AgentEvent V) :
    Consumed fresh st caps onEvent pre event
      (consumeEvent memoryTracer.logged pre.length caps (watch onEvent) event st) := by
  cases hvisible : visible caps event with
  | true => exact consumeEvent_visible fresh st hvisible
  | false =>
    obtain ⟨hk, hstream⟩ : event.kind = .messageDelta ∧ caps.supportsStreaming = false := by
      simpa [visible] using hvisible
    rw [consumeEvent, if_pos ⟨hk, hstream⟩]
    apply Consumed.goesOn
    constructor
    · simp [Stops, hk]
    · simp [completion, hk]
    · simp [shownUpTo, hvisible, LoopEnd.taken]
    · simp [callsUpTo, LoopEnd.processed, LoopEnd.closing, completedTool, hk]
    · exact id

/-- What follows an event the loop went on from. -/
theorem LoopRan.cons {event : AgentEvent V} {passed : List (AgentEvent V)} {left : LoopEnd V}
    {called : Bool} {st st' st'' : WatchedLoop V ω}
    (h : LoopRan caps called pre fresh [event] .exhausted st st')
    (h' : LoopRan caps called pre fresh passed left st' st'') :
    LoopRan caps called pre fresh (event :: passed) left st st'' := by
  constructor
  · intro e he
    obtain rfl | he := List.mem_cons.mp he
    · exact h.goesOn e (List.mem_singleton_self e)
    · exact h'.goesOn e he
  · rw [h'.result, h.result, ← Option.or_assoc, ← List.getLast?_append, ← List.filterMap_append,
      List.singleton_append]
  · rw [h'.shown, h.shown]
    cases called <;> cases hv : visible caps event <;> simp [shownUpTo, LoopEnd.taken, hv]
  · rw [h'.calls, h.calls]
    cases hc : completedTool event <;>
      simp [callsUpTo, LoopEnd.processed, LoopEnd.closing, hc]
  · exact fun hst => h'.holds (h.holds hst)

/-- **The loop**: it passes some events, and is left after them or at the next one. -/
theorem consume_ran (caps : BackendCapabilities) (pre : List (TraceRecord V))
    (onEvent : OnEvent V ω) (raised : Option (Raised V)) (events : List (AgentEvent V)) :
    ∃ passed left rest st', events = passed ++ left.taken ++ rest ∧
      left.Fits caps onEvent rest ∧
      consume memoryTracer.logged pre.length caps (watch onEvent) raised events st =
        (left.answer raised, st') ∧
      LoopRan caps onEvent.isSome pre fresh passed left st st' := by
  induction events generalizing st with
  | nil =>
    refine ⟨[], .exhausted, [], st, rfl, rfl, by cases raised <;> rfl, ?_⟩
    constructor
    · simp
    · simp
    · simp [shownUpTo, LoopEnd.taken]
    · simp [callsUpTo, LoopEnd.processed, LoopEnd.closing]
    · exact id
  | cons event events ih =>
    have hone : Consumed fresh st caps onEvent pre event
        (consumeEvent memoryTracer.logged pre.length caps (watch onEvent) event st) :=
      consumeEvent_ran fresh st event
    rw [consume]
    generalize consumeEvent memoryTracer.logged pre.length caps (watch onEvent) event st = out
      at hone ⊢
    cases hone with
    | goesOn ran =>
      obtain ⟨passed, left, rest, st'', hsplit, hfits, hrun, hran⟩ := ih _
      exact ⟨event :: passed, left, rest, st'', by simp [hsplit], hfits, hrun, ran.cons fresh hran⟩
    | leaves left answers taken fits ran =>
      exact ⟨[], left, events, _, by simp [taken], fits _, by rw [answers], ran⟩

end Step

/-! ## The record of a turn -/

/-- The record a turn starts with. -/
def startedRecord (t : TurnArgs V) : TraceRecord V :=
  { name := "agent-turn", dims := turnDims t, input := t.prompt
    metadata := t.traceMetadata.getD ∅ }

/-- What the record says of how its turn ended. -/
def Reads (record : TraceRecord V) : Except (Raised V) (AgentRunResult V) → Prop
  | .ok result => record.output = some result.finalText ∧ record.error = none
  | .error _ => record.output = none ∧ record.error ≠ none

/-- A record whose calls finished it once, with these tools. -/
structure Closed (fresh : TraceRecord V) (calls : List (SpanCall V)) (tools : List (ToolRecord V))
    (answer : Except (Raised V) (AgentRunResult V)) : Prop where
  tools : (fresh.replay calls).tools = tools
  finished : (fresh.replay calls).finished = true
  once : fresh.finishes calls = 1
  reads : Reads (fresh.replay calls) answer

section Closed

variable {fresh : TraceRecord V} {calls : List (SpanCall V)} {tools : List (ToolRecord V)}

theorem Closed.of_finish (hopen : fresh.finished = false) (hempty : fresh.tools = [])
    {output : Option V} {error : Option String} {exc : Option (Except Thrown String)}
    {answer : Except (Raised V) (AgentRunResult V)}
    (hcalls : calls = tools.map .recordTool ++ [.finish output error, .exit exc])
    (hreads : ∀ r : TraceRecord V, r.output = output → r.error = error → Reads r answer) :
    Closed fresh calls tools answer := by
  obtain ⟨hreplay, honce⟩ := TraceRecord.closed_by_finish hopen tools output error exc
  rw [← hcalls] at hreplay honce
  constructor
  · rw [hreplay, hempty, List.nil_append]
  · rw [hreplay]
  · exact honce
  · exact hreads _ (by rw [hreplay]) (by rw [hreplay])

theorem Closed.of_exit (hopen : fresh.finished = false) (hempty : fresh.tools = [])
    {exc : Raised V} (hprints : exc.Prints)
    (hcalls : calls = tools.map .recordTool ++ [.exit (some exc.str)]) :
    Closed fresh calls tools (.error exc) := by
  obtain ⟨text, htext⟩ := hprints
  rw [htext] at hcalls
  obtain ⟨hreplay, honce⟩ := TraceRecord.closed_by_exit hopen tools text
  rw [← hcalls] at hreplay honce
  constructor
  · rw [hreplay, hempty, List.nil_append]
  · rw [hreplay]
  · exact honce
  · rw [hreplay]
    exact ⟨rfl, Option.some_ne_none _⟩

end Closed

/-- What the `with` block leaves. -/
structure BlockRan (caps : BackendCapabilities) (onEvent : OnEvent V ω)
    (pre : List (TraceRecord V)) (fresh : TraceRecord V) (stream : EventStream V (Raised V))
    (passed : List (AgentEvent V)) (left : LoopEnd V) (shown : List (Shown V))
    (out : Except (Raised V) (AgentRunResult V) × WatchedLoop V ω) : Prop where
  answer : out.1 = left.outcome stream.raised passed
  shown : out.2.world.2 = shown ++ shownUpTo caps onEvent.isSome passed left
  holds : Holds pre fresh out.2.traces
  closed : Closed fresh out.2.traces.2 ((passed ++ left.processed).filterMap completedTool) out.1

theorem traced_ran (caps : BackendCapabilities) (onEvent : OnEvent V ω)
    (pre : List (TraceRecord V)) (fresh : TraceRecord V) (hopen : fresh.finished = false)
    (hempty : fresh.tools = []) {stream : EventStream V (Raised V)}
    (hprints : Printing onEvent stream) (w : ω × List (Shown V)) :
    ∃ passed left rest, stream.events = passed ++ left.taken ++ rest ∧
      (∀ event ∈ passed, ¬ Stops event) ∧ left.Fits caps onEvent rest ∧
      BlockRan caps onEvent pre fresh stream passed left w.2
        (traced memoryTracer.logged pre.length caps (watch onEvent) stream
          { result := none, world := w, traces := (pre ++ [fresh], []) }) := by
  obtain ⟨passed, left, rest, st', hsplit, hfits, hrun, hran⟩ :=
    consume_ran fresh
      { result := none, world := w, traces := (pre ++ [fresh], []) } caps pre onEvent
      stream.raised stream.events
  refine ⟨passed, left, rest, hsplit, hran.goesOn, hfits, ?_⟩
  have hholds : Holds pre fresh st'.traces := hran.holds rfl
  have hcalls : st'.traces.2 = callsUpTo passed left := hran.calls
  have hresult : st'.result = (passed.filterMap completion).getLast? := by
    rw [hran.result, Option.or_none]
  rw [traced, hrun]
  cases hanswer : left.answer stream.raised with
  | ok _ =>
    -- only an exhausted stream ends the loop without an exception
    cases left with
    | callback event exc' => cases hanswer
    | stopped event => cases hanswer
    | exhausted =>
      simp only [callsUpTo, LoopEnd.closing, List.append_nil] at hcalls
      cases hlast : st'.result with
      | none =>
        rw [hlast] at hresult
        simp only [conclude, hlast]
        rw [exitBlock_eq (.inl fun exc hexc => by cases hexc; exact ⟨_, rfl⟩)]
        refine ⟨by rw [LoopEnd.outcome, hanswer, ← hresult]; rfl, hran.shown,
          (hholds.finish _ _).exit _, ?_⟩
        apply Closed.of_finish hopen hempty
        · exact (List.append_assoc _ _ _).trans (congrArg (· ++ _) hcalls)
        · exact fun r houtput herror => ⟨houtput, by simp [herror]⟩
      | some result =>
        rw [hlast] at hresult
        simp only [conclude, hlast]
        rw [exitBlock_eq (.inl fun exc hexc => by cases hexc)]
        refine ⟨by rw [LoopEnd.outcome, hanswer, ← hresult]; rfl, hran.shown,
          (hholds.finish _ _).exit _, ?_⟩
        apply Closed.of_finish hopen hempty
        · exact (List.append_assoc _ _ _).trans (congrArg (· ++ _) hcalls)
        · exact fun r houtput herror => ⟨houtput, herror⟩
  | error exc =>
    have hexc : exc.Prints := LoopEnd.answer_prints hprints hfits hanswer
    dsimp only
    rw [exitBlock_eq (.inl fun exc' h => by cases h; exact hexc)]
    refine ⟨by rw [LoopEnd.outcome, hanswer], hran.shown, hholds.exit _, ?_⟩
    cases hclosing : left.closing with
    | nil =>
      apply Closed.of_exit hopen hempty hexc
      rw [callsUpTo, hclosing, List.append_nil] at hcalls
      exact congrArg (· ++ _) hcalls
    | cons call others =>
      obtain ⟨error, rfl, rfl⟩ := LoopEnd.closing_finish hclosing
      rw [callsUpTo, hclosing] at hcalls
      apply Closed.of_finish hopen hempty
      · exact (congrArg (· ++ _) hcalls).trans (List.append_assoc _ _ _)
      · exact fun r houtput herror => ⟨houtput, by simp [herror]⟩

/-! ## What a turn reports -/

/-- The result of the last `TURN_COMPLETED`. -/
def IsLastResult (events : List (AgentEvent V)) (result : AgentRunResult V) : Prop :=
  ∃ before last after, events = before ++ last :: after ∧ last.kind = .turnCompleted ∧
    last.result = some result ∧ ∀ event ∈ after, event.kind ≠ .turnCompleted

/-- The error of the first `ERROR`. -/
def IsFirstError (events : List (AgentEvent V)) (e : AgentError V) : Prop :=
  ∃ before first after, events = before ++ first :: after ∧ first.kind = .error ∧
    first.error = some e ∧ ∀ event ∈ before, event.kind ≠ .error

/-- A callback that never raises, or none. -/
def Quiet (onEvent : OnEvent V ω) : Prop :=
  ∀ f, onEvent = some f → ∀ event w, (f event w).1 = none

/-- What a turn shows and records of the stream it was given. -/
structure TurnReport (caps : BackendCapabilities) (onEvent : OnEvent V ω)
    (stream : EventStream V (Raised V)) (answer : Except (Raised V) (AgentRunResult V))
    (record : TraceRecord V) (shown : List (Shown V)) : Prop where
  returns : (∃ result, answer = .ok result) ↔ record.error = none
  returned : ∀ result, answer = .ok result → IsLastResult stream.events result ∧
    record.output = some result.finalText ∧ ∀ event ∈ stream.events, event.kind ≠ .error
  failed : ∀ e, answer = .error (.agentRunFailed e) → IsFirstError stream.events e ∨
    ((∀ event ∈ stream.events, ¬ Stops event) ∧ stream.raised = some (.agentRunFailed e)) ∨
    ∃ event, shown.getLast? = some ⟨event, some (.agentRunFailed e)⟩
  consumed : ∃ passed left rest, stream.events = passed ++ left.taken ++ rest ∧
    (∀ event ∈ passed, ¬ Stops event) ∧ left.Fits caps onEvent rest ∧
    answer = left.outcome stream.raised passed ∧
    shown = shownUpTo caps onEvent.isSome passed left ∧
    record.tools = (passed ++ left.processed).filterMap completedTool
  valid : assertValidEventStream stream.events = .ok () → stream.raised = none → Quiet onEvent →
    ∀ last, stream.events.getLast? = some last →
      (last.kind = .turnCompleted ∧ ∃ result, last.result = some result ∧ answer = .ok result) ∨
        (last.kind = .error ∧ ∃ e, last.error = some e ∧ answer = .error (.agentRunFailed e))

section Report

variable {caps : BackendCapabilities} {onEvent : OnEvent V ω} {raised : Option (Raised V)}
variable {passed : List (AgentEvent V)} {left : LoopEnd V}

/-- A turn that returns exhausted its stream. -/
theorem LoopEnd.outcome_ok {result : AgentRunResult V}
    (h : left.outcome raised passed = .ok result) :
    left = .exhausted ∧ (passed.filterMap completion).getLast? = some result := by
  cases left with
  | callback event exc => cases h
  | stopped event => cases h
  | exhausted =>
    cases raised with
    | some exc => cases h
    | none =>
      cases hl : (passed.filterMap completion).getLast? with
      | none => simp [outcome, answer, hl] at h
      | some r => simpa [outcome, answer, hl] using h

theorem lastResult_of_passed (hgoes : ∀ event ∈ passed, ¬ Stops event)
    {result : AgentRunResult V} (h : (passed.filterMap completion).getLast? = some result) :
    IsLastResult passed result := by
  rw [List.getLast?_filterMap, List.findSome?_eq_some_iff] at h
  obtain ⟨after, last, before, hsplit, hlast, hnone⟩ := h
  have hpassed : passed = before.reverse ++ last :: after.reverse := by
    have := congrArg List.reverse hsplit
    simpa using this
  unfold completion at hlast
  split_ifs at hlast with hk
  refine ⟨before.reverse, last, after.reverse, hpassed, hk, hlast, ?_⟩
  intro event hevent hkind
  have hr : event.result = none := by
    simpa [completion, hkind] using hnone event (List.mem_reverse.mp hevent)
  apply hgoes event _ (.inr ⟨hkind, hr⟩)
  rw [hpassed]
  exact List.mem_append_right _ (List.mem_cons_of_mem _ hevent)

/-- An `AgentRunFailed` is the loop's own, for the first `ERROR`, or one that was let through. -/
theorem LoopEnd.outcome_failed {e : AgentError V}
    (h : left.outcome raised passed = .error (.agentRunFailed e)) :
    (∃ event, left = .stopped event ∧ event.kind = .error ∧ event.error = some e) ∨
      (left = .exhausted ∧ raised = some (.agentRunFailed e)) ∨
      ∃ event, left = .callback event (.agentRunFailed e) := by
  cases left with
  | callback event exc => exact .inr (.inr ⟨event, by cases h; rfl⟩)
  | stopped event =>
    left
    simp only [outcome, answer, stopError, Except.error.injEq] at h
    split_ifs at h with hk
    cases he : event.error with
    | none => simp [he] at h
    | some e' =>
      simp only [he, Option.map_some, Option.getD_some, Raised.agentRunFailed.injEq] at h
      exact ⟨event, rfl, hk, by rw [he, h]⟩
  | exhausted =>
    cases raised with
    | some exc => exact .inr (.inl ⟨rfl, by cases h; rfl⟩)
    | none =>
      cases hl : (passed.filterMap completion).getLast? with
      | none => simp [outcome, answer, hl] at h
      | some r => simp [outcome, answer, hl] at h

/-- On a stream the contract's check accepts, the terminal event decides. -/
theorem outcome_of_valid {events rest : List (AgentEvent V)}
    (hvalid : assertValidEventStream events = .ok ()) (hquiet : Quiet onEvent)
    (hsplit : events = passed ++ left.taken ++ rest) (hgoes : ∀ event ∈ passed, ¬ Stops event)
    (hfits : left.Fits caps onEvent rest) {last : AgentEvent V}
    (hlast : events.getLast? = some last) :
    (last.kind = .turnCompleted ∧ ∃ result, last.result = some result ∧
        left.outcome none passed = .ok result) ∨
      (last.kind = .error ∧ ∃ e, last.error = some e ∧
        left.outcome none passed = .error (.agentRunFailed e)) := by
  obtain ⟨before, last', hevents, hbefore, hcloses⟩ := assertValidEventStream_ok.mp hvalid
  obtain rfl : last' = last := by
    rw [hevents, List.getLast?_concat] at hlast
    exact Option.some.inj hlast
  cases left with
  | callback event exc =>
    obtain ⟨_, f, w, hf, hraises⟩ := hfits
    rw [hquiet f hf event w] at hraises
    cases hraises
  | exhausted =>
    obtain rfl : passed = before ++ [last'] := by
      rw [← hevents, hsplit, hfits]
      simp [LoopEnd.taken]
    have hnot := hgoes last' (by simp)
    obtain ⟨hk, hr, _⟩ | ⟨hk, _⟩ := hcloses
    · obtain ⟨result, hresult⟩ := Option.isSome_iff_exists.mp hr
      refine .inl ⟨hk, result, hresult, ?_⟩
      have hc : completion last' = some result := by rw [completion, if_pos hk, hresult]
      simp [LoopEnd.outcome, LoopEnd.answer, hc]
    · exact absurd (.inl hk) hnot
  | stopped event =>
    have hmem : event ∈ before ++ [last'] := by
      rw [← hevents, hsplit]
      simp [LoopEnd.taken]
    have hterminal : event.isTerminal = true := by
      obtain hk | ⟨hk, _⟩ := hfits <;> simp [AgentEvent.isTerminal, hk]
    obtain rfl : event = last' := by
      obtain hb | hl := List.mem_append.mp hmem
      · rw [hbefore event hb] at hterminal
        cases hterminal
      · exact List.mem_singleton.mp hl
    obtain ⟨hk, hr, _⟩ | ⟨hk, he, _⟩ := hcloses
    · obtain hk' | ⟨_, hr'⟩ := hfits
      · rw [hk] at hk'
        cases hk'
      · rw [hr'] at hr
        cases hr
    · obtain ⟨e, herror⟩ := Option.isSome_iff_exists.mp he
      refine .inr ⟨hk, e, herror, ?_⟩
      simp [LoopEnd.outcome, LoopEnd.answer, LoopEnd.stopError, hk, herror]

/-- **What the block leaves is what the report says.** -/
theorem BlockRan.report {pre : List (TraceRecord V)} {fresh : TraceRecord V}
    {stream : EventStream V (Raised V)} {rest : List (AgentEvent V)}
    {out : Except (Raised V) (AgentRunResult V) × WatchedLoop V ω}
    (h : BlockRan caps onEvent pre fresh stream passed left [] out)
    (hsplit : stream.events = passed ++ left.taken ++ rest)
    (hgoes : ∀ event ∈ passed, ¬ Stops event) (hfits : left.Fits caps onEvent rest) :
    TurnReport caps onEvent stream out.1 (fresh.replay out.2.traces.2) out.2.world.2 := by
  have hreads := h.closed.reads
  constructor
  · cases hout : out.1 with
    | ok result =>
      rw [hout] at hreads
      exact iff_of_true ⟨result, rfl⟩ hreads.2
    | error exc =>
      rw [hout] at hreads
      refine iff_of_false ?_ hreads.2
      intro ⟨result, hresult⟩
      cases hresult
  · intro result hout
    rw [hout] at hreads
    obtain ⟨rfl, hlast⟩ := LoopEnd.outcome_ok (h.answer.symm.trans hout)
    have hall : stream.events = passed := by
      rw [hsplit, hfits]
      simp [LoopEnd.taken]
    rw [hall]
    exact ⟨lastResult_of_passed hgoes hlast, hreads.1,
      fun event hevent hk => hgoes event hevent (.inl hk)⟩
  · intro e hout
    obtain ⟨event, rfl, hk, herror⟩ | ⟨rfl, hraised⟩ | ⟨event, rfl⟩ :=
      LoopEnd.outcome_failed (h.answer.symm.trans hout)
    · refine .inl ⟨passed, event, rest, ?_, hk, herror, fun e he hk' => hgoes e he (.inl hk')⟩
      rw [hsplit]
      simp [LoopEnd.taken]
    · refine .inr (.inl ⟨?_, hraised⟩)
      rw [hsplit, hfits]
      simpa [LoopEnd.taken] using hgoes
    · refine .inr (.inr ⟨event, ?_⟩)
      obtain ⟨hvisible, f, w, hf, _⟩ := hfits
      rw [h.shown]
      simp [shownUpTo, LoopEnd.taken, LoopEnd.thrown, hvisible, hf]
  · refine ⟨passed, left, rest, hsplit, hgoes, hfits, h.answer, ?_, h.closed.tools⟩
    rw [h.shown, List.nil_append]
  · intro hvalid hraised hquiet last hlast
    rw [h.answer, hraised]
    exact outcome_of_valid hvalid hquiet hsplit hgoes hfits hlast

end Report

/-- **A turn of a registered backend under a `MemoryTracer`**, whatever its backend yields and its
callback does, where what they raise has a text: it leaves one more record, finished once, and that
record, its answer and what the callback was shown are as `TurnReport` says. -/
theorem turn_reports (registry : EngineRegistry V ω) (t : TurnArgs V) (onEvent : OnEvent V ω)
    (s : EngineState V ω (List (TraceRecord V))) {backend : Backend V ω}
    (h : registry t.backendName = some backend)
    (hprints : Printing onEvent (backend.run (turnRequest backend.capabilities t) s.world).1) :
    ∃ record shown calls,
      runTurn (⟨registry, memoryTracer⟩ : Engine V ω _ _).watched t (watch onEvent) s.watched =
        ((runTurn ⟨registry, memoryTracer⟩ t onEvent s).1,
          { world := ((runTurn ⟨registry, memoryTracer⟩ t onEvent s).2.world, shown)
            traces := ((runTurn ⟨registry, memoryTracer⟩ t onEvent s).2.traces, calls)
            sent := (runTurn ⟨registry, memoryTracer⟩ t onEvent s).2.sent }) ∧
      (runTurn ⟨registry, memoryTracer⟩ t onEvent s).2.traces = s.traces ++ [record] ∧
      record = (startedRecord t).replay calls ∧ record.finished = true ∧
      (startedRecord t).finishes calls = 1 ∧
      TurnReport backend.capabilities onEvent
        (backend.run (turnRequest backend.capabilities t) s.world).1
        (runTurn ⟨registry, memoryTracer⟩ t onEvent s).1 record shown := by
  have hwatched := runTurn_watched ⟨registry, memoryTracer⟩ t onEvent s
  obtain ⟨passed, left, rest, hsplit, hgoes, hfits, hblock⟩ :=
    traced_ran backend.capabilities onEvent s.traces (startedRecord t) rfl rfl hprints
      ((backend.run (turnRequest backend.capabilities t) s.world).2, [])
  generalize hout : traced memoryTracer.logged s.traces.length backend.capabilities (watch onEvent)
    (backend.run (turnRequest backend.capabilities t) s.world).1
    { result := none
      world := ((backend.run (turnRequest backend.capabilities t) s.world).2, [])
      traces := (s.traces ++ [startedRecord t], []) } = out at hblock
  have hrun : runTurn (⟨registry, memoryTracer⟩ : Engine V ω _ _).watched t (watch onEvent)
      s.watched = (out.1, { world := out.2.world, traces := out.2.traces
                            sent := s.sent ++
                              [⟨t.backendName, turnRequest backend.capabilities t⟩] }) := by
    rw [← hout]
    simp only [runTurn, Engine.watched, h, Option.map_some]
    rfl
  rw [hrun] at hwatched ⊢
  rw [← hwatched]
  exact ⟨_, _, _, rfl, hblock.holds, rfl, hblock.closed.finished, hblock.closed.once,
    hblock.report hsplit hgoes hfits⟩

section Example

/-- A backend that answers every request with these events. -/
def yielding (events : List (AgentEvent String)) : Backend String Unit where
  capabilities := ⟨true, false, true, false, ["none"]⟩
  run _ w := (⟨events, none⟩, w)

/-- An engine state before any turn. -/
def noTurns : EngineState String Unit (List (TraceRecord String)) := { world := (), traces := [] }

/-- The arguments of a turn of `yielding`. -/
def askHi : TurnArgs String := { backendName := "b", prompt := "hi", cwd := "/tmp", env := ∅ }

/-- `ERROR` with a crash of this message. -/
def crash (message : String) : AgentEvent String :=
  { kind := .error, error := some { kind := .backendCrash, message } }

/-- A callback that runs a turn of its own, which fails. -/
def failsInside : OnEvent String Unit :=
  some fun _ w => (some (.agentRunFailed { kind := .timeout, message := "inner" }), w)

/-- A tool's completion, then the end of the turn. -/
def shellThenDone : List (AgentEvent String) :=
  [{ kind := .toolCallCompleted, tool := some { name := "shell", output := some "out" } },
    { kind := .turnCompleted
      result := some { backendThreadId := some "bt", finalText := "answer", usage := {} } }]

theorem turn_reports_tool :
    ∃ record, (runTurn (⟨fun _ => some (yielding shellThenDone), memoryTracer⟩ :
        Engine String Unit _ _) askHi none noTurns).2.traces = [record] ∧
      record.finished = true ∧ record.error = none ∧ record.output = some "answer" := by
  obtain ⟨record, shown, calls, _, htraces, _, hfinished, _, hreport⟩ :=
    turn_reports (fun _ => some (yielding shellThenDone)) askHi none noTurns rfl ⟨nofun, nofun⟩
  exact ⟨record, htraces, hfinished, hreport.returns.mp ⟨_, rfl⟩, (hreport.returned _ rfl).2.1⟩

/-- A callback's exception without a text: the record stays unfinished, and what `__str__` raised
leaves the turn. -/
example (byStr : Thrown) :
    let out := runTurn (⟨fun _ => some (yielding shellThenDone), memoryTracer⟩ :
      Engine String Unit _ _) askHi (some fun _ w => (some (.unprintable "Broken" byStr), w)) noTurns
    out.1 = .error (.thrown byStr) ∧ out.2.traces.map (·.finished) = [false] := ⟨rfl, rfl⟩

/-- An `AgentRunFailed` that the callback raised is let through: it does not carry the error of
the `ERROR` event. -/
theorem callback_failure_passes :
    (runTurn (⟨fun _ => some (yielding [crash "boom"]), memoryTracer⟩ : Engine String Unit _ _)
        askHi failsInside noTurns).1 =
      .error (.agentRunFailed { kind := .timeout, message := "inner" }) ∧
    ¬ IsFirstError [crash "boom"] { kind := .timeout, message := "inner" } := by
  refine ⟨rfl, ?_⟩
  intro ⟨before, first, after, hsplit, _, herror, _⟩
  cases before with
  | nil =>
    obtain ⟨rfl, _⟩ := List.cons.inj hsplit
    cases herror
  | cons e others =>
    obtain ⟨_, hnil⟩ := List.cons.inj hsplit
    simp at hnil

end Example

end ClawEngine.Orchestration
