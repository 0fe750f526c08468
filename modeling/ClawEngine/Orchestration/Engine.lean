import ClawEngine.Observability.Tracer

/-!
# Engine.run_turn

`engine/orchestration/engine.py` with the part of `engine/bootstrap.py` it uses. A backend is a
function of its request and of a world `ω` that holds whatever backends keep between turns; the
events it yields are a finite list, after which its iterator stops or raises.

`EngineState.sent` is a history variable: the requests handed to backends, oldest first. The code
does not keep them; the laws speak of them.
-/

set_option autoImplicit false

namespace ClawEngine.Orchestration

open ClawEngine.Core ClawEngine.Runtime ClawEngine.Observability

/-- What a store raises: a value refused at the adapter's boundary, a value the database's column
refuses, a violated constraint, the adapter's own error, or a failure of the store. -/
inductive StoreError
  | valueError (message : String)
  | columnError (message : String)
  | integrityError
  | sessionNotFound
  | multipleResults
  | failure (message : String)
  deriving DecidableEq, Repr

/-- The exceptions that leave the engine. `other` is an exception of a backend or a callback, by
its class and its text; `unprintable` is one whose `__str__` raises, and `thrown` is what a
`__str__` raised. -/
inductive Raised (V : Type)
  | backendNotRegistered (name : String)
  | agentRunFailed (error : AgentError V)
  | noTerminalEvent
  | assertionError
  | duplicateMessage (sessionId messageId : String)
  | sessionRoundsExceeded (sessionId : String) (maxRounds : Int)
  | invalidWorkspaceId (workspaceId : String)
  | store (e : StoreError)
  | other (className text : String)
  | unprintable (className : String) (byStr : Thrown)
  | thrown (e : Thrown)

variable {V ω τ σ : Type}

/-- `f"{error.kind.value}: {error.message}"`. -/
def errorText (e : AgentError V) : String := s!"{e.kind.value}: {e.message}"

/-- `str(exc)` of the exceptions a turn's `with` block can end with. -/
def Raised.str : Raised V → Except Thrown String
  | .agentRunFailed e => .ok (errorText e)
  | .noTerminalEvent => .ok "backend 未产出终态 TURN_COMPLETED/ERROR，违反契约"
  | .other _ text => .ok text
  | .unprintable _ byStr => .error byStr
  | .thrown e => .ok e.text
  | _ => .ok ""

/-- The exception has a text. -/
def Raised.Prints (exc : Raised V) : Prop := ∃ text, exc.str = .ok text

/-- A registered backend: `capabilities()` and `run(request)`. -/
structure Backend (V ω : Type) where
  capabilities : BackendCapabilities
  run : AgentRunRequest V → ω → EventStream V (Raised V) × ω

/-- `EngineRegistry.resolve_backend`; `none` is `BackendNotRegistered`. -/
abbrev EngineRegistry (V ω : Type) := String → Option (Backend V ω)

/-- An engine: its registry and its tracer. -/
structure Engine (V ω τ σ : Type) where
  registry : EngineRegistry V ω
  tracer : Tracer V τ σ

/-- A request handed to a backend. -/
structure SentRequest (V : Type) where
  backendName : String
  request : AgentRunRequest V

/-- What turns act on. -/
structure EngineState (V ω τ : Type) where
  world : ω
  traces : τ
  sent : List (SentRequest V) := []

/-- The arguments of `run_turn`. -/
structure TurnArgs (V : Type) where
  backendName : String
  prompt : String
  cwd : String
  env : Dict String String
  backendThreadId : Option V := none
  model : Option String := none
  metadata : Option (Dict String (Option String)) := none
  traceMetadata : Option TraceMetadata := none

/-- `on_event`: what the callback does to the world, and the exception it raises. -/
abbrev OnEvent (V ω : Type) := Option (AgentEvent V → ω → Option (Raised V) × ω)

/-- What the iterator and the callback raise has a text. -/
structure Printing (onEvent : OnEvent V ω) (stream : EventStream V (Raised V)) : Prop where
  iterator : ∀ exc, stream.raised = some exc → exc.Prints
  callback : ∀ f, onEvent = some f → ∀ event w exc, (f event w).1 = some exc → exc.Prints

/-- The variables of the event loop. -/
structure LoopState (V ω τ : Type) where
  result : Option (AgentRunResult V)
  world : ω
  traces : τ

/-- `on_event(event)`, when there is a callback. -/
def callOnEvent (onEvent : OnEvent V ω) (event : AgentEvent V) (st : LoopState V ω τ) :
    Option (Raised V) × LoopState V ω τ :=
  match onEvent with
  | none => (none, st)
  | some f => ((f event st.world).1, { st with world := (f event st.world).2 })

/-- `span.record_tool(..)` for a completed tool call. -/
def recordTool (tracer : Tracer V τ σ) (span : σ) (event : AgentEvent V)
    (st : LoopState V ω τ) : LoopState V ω τ :=
  match event.kind, event.tool with
  | .toolCallCompleted, some tool =>
    { st with traces := tracer.recordTool span tool.name tool.input tool.output st.traces }
  | _, _ => st

/-- The two branches on terminal events. -/
def onTerminal (tracer : Tracer V τ σ) (span : σ) (event : AgentEvent V)
    (st : LoopState V ω τ) : Except (Raised V) Unit × LoopState V ω τ :=
  match event.kind with
  | .error =>
    match event.error with
    | none => (.error .assertionError, st)
    | some e =>
      (.error (.agentRunFailed e),
        { st with traces := tracer.finish span none (some (errorText e)) st.traces })
  | .turnCompleted =>
    match event.result with
    | none => (.error .assertionError, st)
    | some result => (.ok (), { st with result := some result })
  | _ => (.ok (), st)

/-- The body of the event loop. -/
def consumeEvent (tracer : Tracer V τ σ) (span : σ) (caps : BackendCapabilities)
    (onEvent : OnEvent V ω) (event : AgentEvent V) (st : LoopState V ω τ) :
    Except (Raised V) Unit × LoopState V ω τ :=
  if event.kind = .messageDelta ∧ caps.supportsStreaming = false then (.ok (), st)
  else
    match callOnEvent onEvent event st with
    | (some exc, st) => (.error exc, st)
    | (none, st) => onTerminal tracer span event (recordTool tracer span event st)

/-- The event loop. -/
def consume (tracer : Tracer V τ σ) (span : σ) (caps : BackendCapabilities)
    (onEvent : OnEvent V ω) (raised : Option (Raised V)) :
    List (AgentEvent V) → LoopState V ω τ → Except (Raised V) Unit × LoopState V ω τ
  | [], st =>
    match raised with
    | some exc => (.error exc, st)
    | none => (.ok (), st)
  | event :: events, st =>
    match consumeEvent tracer span caps onEvent event st with
    | (.error exc, st) => (.error exc, st)
    | (.ok (), st) => consume tracer span caps onEvent raised events st

/-- What follows the loop inside the `with` block. -/
def conclude (tracer : Tracer V τ σ) (span : σ) (st : LoopState V ω τ) :
    Except (Raised V) (AgentRunResult V) × LoopState V ω τ :=
  match st.result with
  | none =>
    (.error .noTerminalEvent,
      { st with traces :=
          tracer.finish span none (some "backend 未产出终态 TURN_COMPLETED/ERROR") st.traces })
  | some result =>
    (.ok result, { st with traces := tracer.finish span (some result.finalText) none st.traces })

theorem conclude_prints {tracer : Tracer V τ σ} {span : σ} {st : LoopState V ω τ} {exc : Raised V}
    (h : (conclude tracer span st).1 = .error exc) : exc.Prints := by
  unfold conclude at h
  split at h <;> cases h
  exact ⟨_, rfl⟩

/-- The exception an answer is. -/
def raisedOf {A : Type} : Except (Raised V) A → Option (Raised V)
  | .error exc => some exc
  | .ok _ => none

/-- `__exit__` of the block: what it raises is raised in place of what the block ended with. -/
def exitBlock (tracer : Tracer V τ σ) (span : σ) (answer : Except (Raised V) (AgentRunResult V))
    (st : LoopState V ω τ) : Except (Raised V) (AgentRunResult V) × LoopState V ω τ :=
  match tracer.exit span ((raisedOf answer).map Raised.str) st.traces with
  | (.ok (), traces) => (answer, { st with traces })
  | (.error e, traces) => (.error (.thrown e), { st with traces })

theorem exitBlock_state (tracer : Tracer V τ σ) (span : σ)
    (answer : Except (Raised V) (AgentRunResult V)) (st : LoopState V ω τ) :
    (exitBlock tracer span answer st).2 = { st with
      traces := (tracer.exit span ((raisedOf answer).map Raised.str) st.traces).2 } := by
  unfold exitBlock
  rcases tracer.exit span ((raisedOf answer).map Raised.str) st.traces with ⟨_ | _, traces⟩ <;> rfl

/-- An exception that has a text is let through, and so is one of a span that does not ask. -/
theorem exitBlock_answer {tracer : Tracer V τ σ} {span : σ}
    {answer : Except (Raised V) (AgentRunResult V)} {st : LoopState V ω τ}
    (h : (∀ exc, answer = .error exc → exc.Prints) ∨ tracer.asksText span st.traces = false) :
    (exitBlock tracer span answer st).1 = answer := by
  have hreturns : (tracer.exit span ((raisedOf answer).map Raised.str) st.traces).1 = .ok () := by
    rw [tracer.exit_answer]
    split
    next hasks =>
      cases answer with
      | ok result => rfl
      | error exc =>
        have hprints := h.resolve_right fun hnot => Bool.noConfusion (hasks.symm.trans hnot)
        obtain ⟨text, htext⟩ := hprints exc rfl
        show ((exc.str.map some).map fun _ => ()) = _
        rw [htext]
        rfl
    · rfl
  unfold exitBlock
  rcases hexit : tracer.exit span ((raisedOf answer).map Raised.str) st.traces with ⟨left, traces⟩
  rw [hexit] at hreturns
  obtain rfl := hreturns
  rfl

theorem exitBlock_eq {tracer : Tracer V τ σ} {span : σ}
    {answer : Except (Raised V) (AgentRunResult V)} {st : LoopState V ω τ}
    (h : (∀ exc, answer = .error exc → exc.Prints) ∨ tracer.asksText span st.traces = false) :
    exitBlock tracer span answer st = (answer, { st with
      traces := (tracer.exit span ((raisedOf answer).map Raised.str) st.traces).2 }) :=
  Prod.ext (exitBlock_answer h) (exitBlock_state tracer span answer st)

/-- What a block returns, it ended with. -/
theorem exitBlock_ok {tracer : Tracer V τ σ} {span : σ}
    {answer : Except (Raised V) (AgentRunResult V)} {st : LoopState V ω τ} {r : AgentRunResult V}
    (h : (exitBlock tracer span answer st).1 = .ok r) : answer = .ok r := by
  unfold exitBlock at h
  split at h
  · exact h
  · cases h

/-- The `with` block: loop, conclusion, `__exit__`. -/
def traced (tracer : Tracer V τ σ) (span : σ) (caps : BackendCapabilities)
    (onEvent : OnEvent V ω) (stream : EventStream V (Raised V)) (st : LoopState V ω τ) :
    Except (Raised V) (AgentRunResult V) × LoopState V ω τ :=
  match consume tracer span caps onEvent stream.raised stream.events st with
  | (.error exc, st) => exitBlock tracer span (.error exc) st
  | (.ok (), st) =>
    let (answer, st) := conclude tracer span st
    exitBlock tracer span answer st

/-- The request of a turn: the resume handle goes only to a backend that can resume. -/
def turnRequest (caps : BackendCapabilities) (t : TurnArgs V) : AgentRunRequest V :=
  { prompt := t.prompt, cwd := t.cwd, env := t.env
    backendThreadId := if caps.supportsResume then t.backendThreadId else none
    model := t.model, metadata := t.metadata.getD ∅ }

/-- The dimensions of a turn's trace. -/
def turnDims (t : TurnArgs V) : TraceDims :=
  let md := t.metadata.getD ∅
  { workspaceId := (md.get? "workspace_id").join, userId := (md.get? "user_id").join
    sessionId := (md.get? "session_id").join, backendName := some t.backendName }

/-- `Engine.run_turn`. -/
def runTurn (engine : Engine V ω τ σ) (t : TurnArgs V) (onEvent : OnEvent V ω)
    (s : EngineState V ω τ) :
    Except (Raised V) (AgentRunResult V) × EngineState V ω τ :=
  match engine.registry t.backendName with
  | none => (.error (.backendNotRegistered t.backendName), s)
  | some backend =>
    let req := turnRequest backend.capabilities t
    let (span, traces) :=
      engine.tracer.startTrace "agent-turn" (turnDims t) t.prompt t.traceMetadata s.traces
    let (stream, world) := backend.run req s.world
    let (answer, st) :=
      traced engine.tracer span backend.capabilities onEvent stream
        { result := none, world, traces }
    (answer,
      { world := st.world, traces := st.traces, sent := s.sent ++ [⟨t.backendName, req⟩] })

theorem runTurn_unregistered {engine : Engine V ω τ σ} {t : TurnArgs V} {onEvent : OnEvent V ω}
    {s : EngineState V ω τ} (h : engine.registry t.backendName = none) :
    runTurn engine t onEvent s = (.error (.backendNotRegistered t.backendName), s) := by
  simp only [runTurn, h]

/-- A turn of a registered backend hands it exactly one request. -/
theorem runTurn_sent {engine : Engine V ω τ σ} {t : TurnArgs V} {onEvent : OnEvent V ω}
    {s : EngineState V ω τ} {backend : Backend V ω}
    (h : engine.registry t.backendName = some backend) :
    (runTurn engine t onEvent s).2.sent =
      s.sent ++ [⟨t.backendName, turnRequest backend.capabilities t⟩] := by
  simp only [runTurn, h]

end ClawEngine.Orchestration
