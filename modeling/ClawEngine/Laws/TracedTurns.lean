import ClawEngine.Laws.SpanRendering
import ClawEngine.Observability.OtelTracer
import ClawEngine.Orchestration.Engine

/-!
# Turns under different tracers

The engine uses a span by a protocol: tools are recorded while it is open, it is finished at most
once, and the `with` block leaves it last. So two tracers that agree along that protocol
(`TracerSim`) see the same turns: what a turn answers, what it does to the world and what it hands
to backends does not depend on the tracer. `OtelTracer` and `MemoryTracer` agree, and the spans of
one stand for the records of the other.
-/

set_option autoImplicit false

namespace ClawEngine.Observability

open ClawEngine.Core

variable {py : TextLib}

theorem orNone_renders (v : Option (Renderable py)) : Renders py (orNone v) := by
  cases v with
  | none => exact renders_none py
  | some v => exact serialise_returns.mp v.renders

/-! ## The methods return -/

section Methods

variable {s : OtelTraceSpan}

theorem toolAttributes_orNone (key : String) (v : Option (Renderable py)) :
    OtelTraceSpan.toolAttributes py key (orNone v) = .ok (attributesOf py key v) := by
  obtain ⟨attrs, h⟩ := (toolAttributes_returns key).mpr (orNone_renders v)
  rw [attributesOf, h]
  rfl

theorem recordTool_returned (tool : ToolRecord (Renderable py)) :
    OtelTraceSpan.recordTool py tool.name.value (orNone tool.input) (orNone tool.output) s =
      (.ok (), s.after [toolEvent py tool]) :=
  OtelTraceSpan.recordTool_ok (toolAttributes_orNone _ _) (toolAttributes_orNone _ _)

theorem verdictCalls_orNone (output : Option (Renderable py)) (error : Option String) :
    OtelTraceSpan.verdictCalls py (orNone output) error =
      .ok ((OtelTraceSpan.verdictCalls py (orNone output) error).toOption.getD []) := by
  have hrenders : error.isSome = true ∨ Renders py (orNone output) := .inr (orNone_renders output)
  obtain ⟨calls, h⟩ := verdictCalls_returns.mpr hrenders
  rw [h]
  rfl

theorem finish_returned (h : s.ended = false) (output : Option (Renderable py))
    (error : Option String) : OtelTraceSpan.finish py (orNone output) error s =
      (.ok (), ⟨true, s.calls ++ closingCalls py output error⟩) := by
  rw [OtelTraceSpan.finish_open h (verdictCalls_orNone output error), closingCalls,
    List.append_assoc]

theorem exit_returned (h : s.ended = false) {exc : Option (Except Thrown String)}
    {error : Option String} (hexc : excText exc = .ok error) :
    OtelTraceSpan.exit py exc s = (.ok false, ⟨true, s.calls ++ closingCalls py none error⟩) := by
  have hcalls : OtelTraceSpan.verdictCalls py .none error = .ok _ :=
    verdictCalls_orNone (none : Option (Renderable py)) error
  rw [OtelTraceSpan.exit_open h hexc hcalls, List.append_assoc]
  rfl

end Methods

/-! ## What the methods do to the span of a record -/

variable {r : TraceRecord (Renderable py)}

/-- A tool is recorded at the end of a span that is open. -/
theorem exported_recordTool (h : r.finished = false) (name : Renderable py)
    (input output : Option (Renderable py)) : exported py (r.recordTool name input output) =
      (exported py r).on
        (OtelTraceSpan.recordTool py name.value (orNone input) (orNone output)) := by
  have hreturned : OtelTraceSpan.recordTool py name.value (orNone input) (orNone output)
      (exported py r).span = _ := recordTool_returned ⟨name, input, output⟩
  rw [OtelSpan.on, hreturned]
  simp only [exported, exportedCalls, TraceRecord.recordTool, OtelTraceSpan.after, h,
    Bool.false_eq_true, if_false, List.append_nil, List.map_append, List.map_cons, List.map_nil]

theorem exported_finish (output : Option (Renderable py)) (error : Option String) :
    exported py (r.finish output error) =
      (exported py r).on (OtelTraceSpan.finish py (orNone output) error) := by
  cases h : r.finished with
  | true =>
    have hended : (exported py r).span.ended = true := h
    rw [OtelSpan.on, OtelTraceSpan.finish_ended hended, TraceRecord.finish, if_pos h]
  | false =>
    have hopen : (exported py r).span.ended = false := h
    rw [OtelSpan.on, finish_returned hopen, TraceRecord.finish, h]
    simp only [exported, exportedCalls, h, Bool.false_eq_true, if_false, if_true, List.append_nil]

/-- `__exit__` answers the same on a span and on its record. -/
theorem exported_exit_answer (exc : Option (Except Thrown String)) :
    (r.exit exc).1 = ((exported py r).exit py exc).1 :=
  (r.exit_answer exc).trans (OtelTraceSpan.exit_answer py exc (exported py r).span).symm

theorem exported_exit (exc : Option (Except Thrown String)) :
    exported py (r.exit exc).2 = ((exported py r).exit py exc).2 := by
  show _ = (exported py r).on (OtelTraceSpan.exit py exc)
  cases h : r.finished with
  | true =>
    have hended : (exported py r).span.ended = true := h
    rw [OtelSpan.on, OtelTraceSpan.exit_ended hended, TraceRecord.exit, if_pos h]
  | false =>
    have hopen : (exported py r).span.ended = false := h
    have hnot : ¬ r.finished = true := by rw [h]; exact Bool.false_ne_true
    rw [OtelSpan.on, TraceRecord.exit, if_neg hnot]
    cases hexc : excText exc with
    | error e => rw [OtelTraceSpan.exit_raised hopen hexc]
    | ok error =>
      rw [exit_returned hopen hexc]
      simp only [TraceRecord.finish, exported, exportedCalls, h, Bool.false_eq_true, if_false,
        if_true, List.append_nil]

end ClawEngine.Observability

namespace ClawEngine.Orchestration

open ClawEngine.Core ClawEngine.Runtime ClawEngine.Observability

/-! ## Two tracers under one turn -/

/-- **Two tracers agree** along the protocol of a span: `Idle` between turns, `Running` while the
span is open and `Ended` once it was finished. Where an exception has no text, they need agree only
if `Textless`. -/
structure TracerSim {V τ σ τ' σ' : Type} (T : Tracer V τ σ) (T' : Tracer V τ' σ')
    (Idle : τ → τ' → Prop) (Running Ended : σ → σ' → τ → τ' → Prop) (Textless : Prop) : Prop where
  start : ∀ {t t'} (name : String) (dims : TraceDims) (input : String)
    (metadata : Option TraceMetadata), Idle t t' →
      Running (T.startTrace name dims input metadata t).1
        (T'.startTrace name dims input metadata t').1 (T.startTrace name dims input metadata t).2
        (T'.startTrace name dims input metadata t').2
  tool : ∀ {s s' t t'} (name : V) (input output : Option V), Running s s' t t' →
    Running s s' (T.recordTool s name input output t) (T'.recordTool s' name input output t')
  finish : ∀ {s s' t t'} (output : Option V) (error : Option String), Running s s' t t' →
    Ended s s' (T.finish s output error t) (T'.finish s' output error t')
  exit : ∀ {s s' t t'} (exc : Option (Except Thrown String)),
    Textless ∨ (∃ error, excText exc = .ok error) → Running s s' t t' ∨ Ended s s' t t' →
      (T.exit s exc t).1 = (T'.exit s' exc t').1 ∧ Idle (T.exit s exc t).2 (T'.exit s' exc t').2

/-! ## What leaves the loop has a text -/

/-- What the turn's backend and its callback raise has a text. -/
def TurnPrints {V ω : Type} (registry : EngineRegistry V ω) (t : TurnArgs V)
    (onEvent : OnEvent V ω) : Prop :=
  ∀ backend, registry t.backendName = some backend → ∀ world,
    Printing onEvent (backend.run (turnRequest backend.capabilities t) world).1

section Prints

variable {V ω τ σ : Type} {T : Tracer V τ σ} {s : σ} {caps : BackendCapabilities}
  {onEvent : OnEvent V ω} {st : LoopState V ω τ} {exc : Raised V}

theorem onTerminal_prints {event : AgentEvent V} (h : (onTerminal T s event st).1 = .error exc) :
    exc.Prints := by
  unfold onTerminal at h
  split at h
  · split at h <;> cases h <;> exact ⟨_, rfl⟩
  · split at h <;> cases h
    exact ⟨_, rfl⟩
  · cases h

theorem consumeEvent_prints {event : AgentEvent V}
    (hcallback : ∀ f, onEvent = some f → ∀ event w exc, (f event w).1 = some exc → exc.Prints)
    (h : (consumeEvent T s caps onEvent event st).1 = .error exc) : exc.Prints := by
  unfold consumeEvent at h
  split at h
  · cases h
  rcases hcall : callOnEvent onEvent event st with ⟨raised, st₁⟩
  rw [hcall] at h
  cases raised with
  | none => exact onTerminal_prints h
  | some exc' =>
    cases h
    cases onEvent with
    | none => cases hcall
    | some f => exact hcallback f rfl event st.world exc (congrArg Prod.fst hcall)

/-- Where the iterator and the callback raise what has a text, so does the loop. -/
theorem consume_prints {stream : EventStream V (Raised V)} (hprints : Printing onEvent stream)
    {events : List (AgentEvent V)}
    (h : (consume T s caps onEvent stream.raised events st).1 = .error exc) : exc.Prints := by
  induction events generalizing st with
  | nil =>
    unfold consume at h
    cases hraised : stream.raised with
    | none =>
      rw [hraised] at h
      cases h
    | some exc' =>
      rw [hraised] at h
      cases h
      exact hprints.iterator exc hraised
  | cons event events ih =>
    unfold consume at h
    rcases hevent : consumeEvent T s caps onEvent event st with ⟨_ | _, st₁⟩
    · rw [hevent] at h
      cases h
      exact consumeEvent_prints hprints.callback (congrArg Prod.fst hevent)
    · rw [hevent] at h
      exact ih h

end Prints

/-! ## One turn -/

section Turns

variable {V ω τ σ τ' σ' : Type} {T : Tracer V τ σ} {T' : Tracer V τ' σ'}
  {Idle : τ → τ' → Prop} {Running Ended : σ → σ' → τ → τ' → Prop} {Textless : Prop}
  {s : σ} {s' : σ'} {st : LoopState V ω τ} {st' : LoopState V ω τ'}

/-- The variables of the loop are the same, and the traces are related. -/
structure LoopSame (R : τ → τ' → Prop) (st : LoopState V ω τ) (st' : LoopState V ω τ') : Prop where
  result : st.result = st'.result
  world : st.world = st'.world
  traces : R st.traces st'.traces

/-- What a part of the turn comes to: the same answer, with the span open where it goes on. -/
structure PartSame {A : Type} (Running Ended : τ → τ' → Prop)
    (x : Except (Raised V) A × LoopState V ω τ) (x' : Except (Raised V) A × LoopState V ω τ') :
    Prop where
  answer : x.1 = x'.1
  state : LoopSame (fun t t' => Running t t' ∨ (∃ e, x.1 = .error e) ∧ Ended t t') x.2 x'.2

variable (h : TracerSim T T' Idle Running Ended Textless)

theorem PartSame.running {A : Type} {Running Ended : τ → τ' → Prop} {x : Except (Raised V) A}
    (h : LoopSame Running st st') : PartSame Running Ended (x, st) (x, st') :=
  ⟨rfl, h.result, h.world, .inl h.traces⟩

theorem callOnEvent_same {R : τ → τ' → Prop} (onEvent : OnEvent V ω) (event : AgentEvent V)
    (hst : LoopSame R st st') :
    (callOnEvent onEvent event st).1 = (callOnEvent onEvent event st').1 ∧
      LoopSame R (callOnEvent onEvent event st).2 (callOnEvent onEvent event st').2 := by
  cases onEvent with
  | none => exact ⟨rfl, hst⟩
  | some f =>
    obtain ⟨hresult, hworld, htraces⟩ := hst
    simp only [callOnEvent, hworld]
    exact ⟨trivial, hresult, rfl, htraces⟩

include h

theorem TracerSim.recordTool_same (event : AgentEvent V) (hst : LoopSame (Running s s') st st') :
    LoopSame (Running s s') (recordTool T s event st) (recordTool T' s' event st') := by
  unfold recordTool
  split
  · exact ⟨hst.result, hst.world, h.tool _ _ _ hst.traces⟩
  · exact hst

theorem TracerSim.onTerminal_same (event : AgentEvent V) (hst : LoopSame (Running s s') st st') :
    PartSame (Running s s') (Ended s s') (onTerminal T s event st)
      (onTerminal T' s' event st') := by
  unfold onTerminal
  split
  · split
    · exact .running hst
    next e _ =>
      exact ⟨rfl, hst.result, hst.world, .inr ⟨⟨_, rfl⟩, h.finish none _ hst.traces⟩⟩
  · split
    · exact .running hst
    · exact .running ⟨rfl, hst.world, hst.traces⟩
  · exact .running hst

theorem TracerSim.consumeEvent_same (caps : BackendCapabilities) (onEvent : OnEvent V ω)
    (event : AgentEvent V) (hst : LoopSame (Running s s') st st') :
    PartSame (Running s s') (Ended s s') (consumeEvent T s caps onEvent event st)
      (consumeEvent T' s' caps onEvent event st') := by
  unfold consumeEvent
  split
  · exact .running hst
  · obtain ⟨hcall, hafter⟩ := callOnEvent_same onEvent event hst
    rcases hx : callOnEvent onEvent event st with ⟨exc, st₁⟩
    rcases hx' : callOnEvent onEvent event st' with ⟨exc', st₁'⟩
    rw [hx, hx'] at hcall hafter
    obtain rfl : exc = exc' := hcall
    cases exc with
    | some exc => exact .running hafter
    | none => exact h.onTerminal_same event (h.recordTool_same event hafter)

theorem TracerSim.consume_same (caps : BackendCapabilities) (onEvent : OnEvent V ω)
    (raised : Option (Raised V)) (events : List (AgentEvent V))
    (hst : LoopSame (Running s s') st st') :
    PartSame (Running s s') (Ended s s') (consume T s caps onEvent raised events st)
      (consume T' s' caps onEvent raised events st') := by
  induction events generalizing st st' with
  | nil =>
    unfold consume
    split <;> exact .running hst
  | cons event events ih =>
    have hevent := h.consumeEvent_same caps onEvent event hst
    unfold consume
    rcases hx : consumeEvent T s caps onEvent event st with ⟨answer, st₁⟩
    rcases hx' : consumeEvent T' s' caps onEvent event st' with ⟨answer', st₁'⟩
    rw [hx, hx'] at hevent
    obtain ⟨hanswer, hresult, hworld, htraces⟩ := hevent
    obtain rfl : answer = answer' := hanswer
    cases answer with
    | error exc => exact ⟨rfl, hresult, hworld, htraces⟩
    | ok u =>
      -- only a turn that is left may have ended its span
      obtain hrunning | ⟨⟨e, he⟩, -⟩ := htraces
      · exact ih ⟨hresult, hworld, hrunning⟩
      · cases he

theorem TracerSim.conclude_same (hst : LoopSame (Running s s') st st') :
    (conclude T s st).1 = (conclude T' s' st').1 ∧
      LoopSame (Ended s s') (conclude T s st).2 (conclude T' s' st').2 := by
  obtain ⟨hresult, hworld, htraces⟩ := hst
  unfold conclude
  rw [← hresult]
  split
  · exact ⟨rfl, rfl, hworld, h.finish _ _ htraces⟩
  · exact ⟨rfl, rfl, hworld, h.finish _ _ htraces⟩

/-- The span is left last. -/
theorem TracerSim.exitBlock_same {answer : Except (Raised V) (AgentRunResult V)}
    (hprints : Textless ∨ ∀ exc, answer = .error exc → exc.Prints)
    (hst : LoopSame (fun t t' => Running s s' t t' ∨ Ended s s' t t') st st') :
    (exitBlock T s answer st).1 = (exitBlock T' s' answer st').1 ∧
      LoopSame Idle (exitBlock T s answer st).2 (exitBlock T' s' answer st').2 := by
  obtain ⟨hresult, hworld, htraces⟩ := hst
  have htext : Textless ∨ ∃ error, excText ((raisedOf answer).map Raised.str) = .ok error := by
    refine hprints.imp_right fun hprints => ?_
    cases answer with
    | ok result => exact ⟨none, rfl⟩
    | error exc =>
      obtain ⟨text, hstr⟩ := hprints exc rfl
      exact ⟨some text, congrArg (Except.map some) hstr⟩
  obtain ⟨hleft, hidle⟩ := h.exit _ htext htraces
  unfold exitBlock
  rcases hx : T.exit s ((raisedOf answer).map Raised.str) st.traces with ⟨left, t⟩
  rcases hx' : T'.exit s' ((raisedOf answer).map Raised.str) st'.traces with ⟨left', t'⟩
  rw [hx, hx'] at hleft hidle
  obtain rfl : left = left' := hleft
  cases left with
  | ok u => exact ⟨rfl, hresult, hworld, hidle⟩
  | error e => exact ⟨rfl, hresult, hworld, hidle⟩

/-- The `with` block, whatever happens in it. -/
theorem TracerSim.tracedTurn_same (caps : BackendCapabilities) {onEvent : OnEvent V ω}
    {stream : EventStream V (Raised V)} (hprints : Textless ∨ Printing onEvent stream)
    (hst : LoopSame (Running s s') st st') :
    (traced T s caps onEvent stream st).1 = (traced T' s' caps onEvent stream st').1 ∧
      LoopSame Idle (traced T s caps onEvent stream st).2
        (traced T' s' caps onEvent stream st').2 := by
  have hloop := h.consume_same caps onEvent stream.raised stream.events hst
  unfold traced
  rcases hx : consume T s caps onEvent stream.raised stream.events st with ⟨answer, st₁⟩
  rcases hx' : consume T' s' caps onEvent stream.raised stream.events st' with ⟨answer', st₁'⟩
  rw [hx, hx'] at hloop
  obtain ⟨hanswer, hresult, hworld, htraces⟩ := hloop
  obtain rfl : answer = answer' := hanswer
  cases answer with
  | error exc =>
    refine h.exitBlock_same (hprints.imp_right fun hprints exc' hexc => ?_)
      ⟨hresult, hworld, htraces.imp_right And.right⟩
    cases hexc
    exact consume_prints hprints (congrArg Prod.fst hx)
  | ok u =>
    obtain hrunning | ⟨⟨e, he⟩, -⟩ := htraces
    · obtain ⟨hend, hafter⟩ := h.conclude_same ⟨hresult, hworld, hrunning⟩
      dsimp only at hend hafter ⊢
      rw [← hend]
      exact h.exitBlock_same (.inr fun exc hexc => conclude_prints hexc)
        ⟨hafter.result, hafter.world, .inr hafter.traces⟩
    · cases he

/-- Two engine states that differ in their traces only. -/
structure StateSame (R : τ → τ' → Prop) (s : EngineState V ω τ) (s' : EngineState V ω τ') :
    Prop where
  world : s.world = s'.world
  sent : s.sent = s'.sent
  traces : R s.traces s'.traces

/-- **A turn under two tracers that agree.** -/
theorem TracerSim.runTurn_same (registry : EngineRegistry V ω) (t : TurnArgs V)
    (onEvent : OnEvent V ω) (hprints : Textless ∨ TurnPrints registry t onEvent)
    {s : EngineState V ω τ} {s' : EngineState V ω τ'} (hs : StateSame Idle s s') :
    (runTurn ⟨registry, T⟩ t onEvent s).1 = (runTurn ⟨registry, T'⟩ t onEvent s').1 ∧
      StateSame Idle (runTurn ⟨registry, T⟩ t onEvent s).2
        (runTurn ⟨registry, T'⟩ t onEvent s').2 := by
  obtain ⟨world, traces, sent⟩ := s
  obtain ⟨world', traces', sent'⟩ := s'
  obtain ⟨hworld, hsent, htraces⟩ := hs
  obtain rfl : world = world' := hworld
  obtain rfl : sent = sent' := hsent
  cases hreg : registry t.backendName with
  | none =>
    rw [runTurn_unregistered hreg, runTurn_unregistered hreg]
    exact ⟨rfl, rfl, rfl, htraces⟩
  | some backend =>
    have hstart := h.start "agent-turn" (turnDims t) t.prompt t.traceMetadata htraces
    have hst : LoopSame _
        (⟨none, (backend.run (turnRequest backend.capabilities t) world).2, _⟩ : LoopState V ω τ)
        (⟨none, (backend.run (turnRequest backend.capabilities t) world).2, _⟩ :
          LoopState V ω τ') := ⟨rfl, rfl, hstart⟩
    obtain ⟨hanswer, hafter⟩ := h.tracedTurn_same backend.capabilities
      (hprints.imp_right fun hprints => hprints backend hreg world) hst
    simp only [runTurn, hreg]
    exact ⟨hanswer, hafter.world, rfl, hafter.traces⟩

/-- Turns one after another. -/
def runTurns {V ω τ σ : Type} (engine : Engine V ω τ σ) :
    List (TurnArgs V × OnEvent V ω) → EngineState V ω τ →
      List (Except (Raised V) (AgentRunResult V)) × EngineState V ω τ
  | [], s => ([], s)
  | (t, onEvent) :: turns, s =>
    ((runTurn engine t onEvent s).1 :: (runTurns engine turns (runTurn engine t onEvent s).2).1,
      (runTurns engine turns (runTurn engine t onEvent s).2).2)

theorem TracerSim.runTurns_same (registry : EngineRegistry V ω)
    (turns : List (TurnArgs V × OnEvent V ω))
    (hprints : Textless ∨ ∀ turn ∈ turns, TurnPrints registry turn.1 turn.2)
    {s : EngineState V ω τ} {s' : EngineState V ω τ'} (hs : StateSame Idle s s') :
    (runTurns ⟨registry, T⟩ turns s).1 = (runTurns ⟨registry, T'⟩ turns s').1 ∧
      StateSame Idle (runTurns ⟨registry, T⟩ turns s).2 (runTurns ⟨registry, T'⟩ turns s').2 := by
  induction turns generalizing s s' with
  | nil => exact ⟨rfl, hs⟩
  | cons turn turns ih =>
    obtain ⟨t, onEvent⟩ := turn
    obtain ⟨hanswer, hafter⟩ := h.runTurn_same registry t onEvent
      (hprints.imp_right fun hprints => hprints _ List.mem_cons_self) hs
    obtain ⟨hanswers, hend⟩ := ih
      (hprints.imp_right fun hprints turn hturn => hprints turn (List.mem_cons_of_mem _ hturn))
      hafter
    exact ⟨congrArg₂ List.cons hanswer hanswers, hend⟩

end Turns

/-! ## The three tracers -/

/-- Any tracer agrees with the one that records nothing, on exceptions that have a text. -/
theorem noOp_sim {V τ σ : Type} (T : Tracer V τ σ) :
    TracerSim T noOpTracer (fun _ _ => True) (fun _ _ _ _ => True) (fun _ _ _ _ => True) False where
  start _ _ _ _ _ := trivial
  tool _ _ _ _ := trivial
  finish _ _ _ := trivial
  exit exc htext _ := by
    obtain ⟨error, hexc⟩ := htext.resolve_left id
    refine ⟨?_, trivial⟩
    rw [T.exit_answer, hexc]
    exact ite_self _

/-- A change of one element, seen through a function. -/
theorem map_modify {A B : Type} {f : A → A} {f' : B → B} {g : A → B} (l : List A) (i : Nat)
    (h : ∀ x, l[i]? = some x → g (f x) = f' (g x)) :
    (l.modify i f).map g = (l.map g).modify i f' := by
  refine List.ext_getElem? fun j => ?_
  rw [List.getElem?_map, List.getElem?_modify, List.getElem?_modify, List.getElem?_map]
  by_cases hij : i = j
  · subst hij
    cases hx : l[i]? with
    | none => rfl
    | some x =>
      simp only [if_true]
      exact congrArg some (h x hx)
  · simp only [hij, if_false, id_map']

section Exported

variable {py : TextLib}

/-- The spans stand for the records. -/
def Exported (py : TextLib) (records : List (TraceRecord (Renderable py)))
    (spans : List OtelSpan) : Prop :=
  spans = records.map (exported py)

/-- The two spans of a turn: the record of the one is there. -/
def ExportedSpan (py : TextLib) (span span' : Nat) (records : List (TraceRecord (Renderable py)))
    (spans : List OtelSpan) : Prop :=
  span = span' ∧ Exported py records spans

/-- The record is open. -/
def ExportedOpen (py : TextLib) (span span' : Nat) (records : List (TraceRecord (Renderable py)))
    (spans : List OtelSpan) : Prop :=
  ExportedSpan py span span' records spans ∧ ∃ r, records[span]? = some r ∧ r.finished = false

/-- **`OtelTracer` and `MemoryTracer` agree.** -/
theorem otel_sim (py : TextLib) : TracerSim memoryTracer (otelTracer py) (Exported py)
    (ExportedOpen py) (ExportedSpan py) True where
  start {records spans} name dims input metadata h := by
    obtain rfl : spans = records.map (exported py) := h
    refine ⟨⟨(List.length_map ..).symm, ?_⟩, _, List.getElem?_concat_length, rfl⟩
    show _ = List.map (exported py) (records ++ _)
    rw [List.map_append]
    rfl
  tool {span span' records spans} name input output h := by
    obtain ⟨⟨rfl, rfl⟩, r, hr, hopen⟩ := h
    refine ⟨⟨rfl, ?_⟩, r.recordTool name input output, ?_, hopen⟩
    · refine (map_modify records span fun x hx => ?_).symm
      cases hr.symm.trans hx
      exact exported_recordTool hopen name input output
    · show (records.modify span _)[span]? = _
      rw [List.getElem?_modify, hr]
      exact congrArg some (if_pos rfl)
  finish {span span' records spans} output error h := by
    obtain ⟨⟨rfl, rfl⟩, -⟩ := h
    exact ⟨rfl, (map_modify records span fun x _ => exported_finish output error).symm⟩
  exit {span span' records spans} exc _ h := by
    obtain ⟨rfl, rfl⟩ : ExportedSpan py span span' records spans := h.elim And.left id
    refine ⟨?_, (map_modify records span fun x _ => exported_exit exc).symm⟩
    show ((records[span]?).map _).getD _ = (((records.map (exported py))[span]?).map _).getD _
    rw [List.getElem?_map]
    cases records[span]? with
    | none => rfl
    | some r => exact exported_exit_answer exc

/-- **Turns do not depend on the tracer.** Whatever backends yield and callbacks do, a sequence of
turns is answered the same over `OtelTracer` and over `MemoryTracer`, does the same to the world and
hands the same requests to backends, and the spans that `OtelTracer` leaves stand for the records that
`MemoryTracer` does. Over no tracer it is the same too, where what is raised has a text. -/
theorem turns_traced_alike {ω : Type} (py : TextLib) (registry : EngineRegistry (Renderable py) ω)
    (turns : List (TurnArgs (Renderable py) × OnEvent (Renderable py) ω)) (world : ω)
    (sent : List (SentRequest (Renderable py))) (records : List (TraceRecord (Renderable py))) :
    let memory := runTurns ⟨registry, memoryTracer⟩ turns ⟨world, records, sent⟩
    let otel := runTurns ⟨registry, otelTracer py⟩ turns
      ⟨world, records.map (exported py), sent⟩
    let noOp := runTurns ⟨registry, noOpTracer⟩ turns ⟨world, (), sent⟩
    otel.1 = memory.1 ∧ otel.2.world = memory.2.world ∧ otel.2.sent = memory.2.sent ∧
      otel.2.traces = memory.2.traces.map (exported py) ∧
      ((∀ turn ∈ turns, TurnPrints registry turn.1 turn.2) →
        noOp.1 = memory.1 ∧ noOp.2.world = memory.2.world ∧ noOp.2.sent = memory.2.sent) := by
  intro memory otel noOp
  have hotel : StateSame (Exported py) (⟨world, records, sent⟩ : EngineState _ ω _)
      ⟨world, records.map (exported py), sent⟩ := ⟨rfl, rfl, rfl⟩
  have hnoOp : StateSame (fun _ _ => True) (⟨world, records, sent⟩ : EngineState _ ω _)
      ⟨world, (), sent⟩ := ⟨rfl, rfl, trivial⟩
  obtain ⟨hanswers, hworld, hsent, htraces⟩ :=
    (otel_sim py).runTurns_same registry turns (.inl trivial) hotel
  refine ⟨hanswers.symm, hworld.symm, hsent.symm, htraces, fun hprints => ?_⟩
  obtain ⟨hanswers', hworld', hsent', -⟩ :=
    (noOp_sim memoryTracer).runTurns_same registry turns (.inr hprints) hnoOp
  exact ⟨hanswers'.symm, hworld'.symm, hsent'.symm⟩

end Exported

end ClawEngine.Orchestration
