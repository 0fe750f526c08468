import ClawEngine.Laws.HandleTrace
import ClawEngine.Orchestration.Gateway
import Mathlib.Data.List.Sort

/-!
# Secrets are not shown

Two runs of the gateway with the same calls, the same configuration and the same draws, under two
secret providers that know the same keys. The values of the secrets reach one place only: the
environment a backend is run in. A backend that does not look at it answers the same, and so the
results, the session store and the traces of the two runs are the same.

The metadata of a trace holds the redacted environment, a dictionary. Under the same sets of keys
the two are equal as dictionaries; they print alike when the keys also come in the same order.
-/

set_option autoImplicit false

namespace ClawEngine.Orchestration

open ClawEngine.Core ClawEngine.Context ClawEngine.Runtime ClawEngine.Observability
  ClawEngine.Persistence

variable {V ω τ σ ε span : Type}

/-! ## Tracers given related metadata -/

/-- Related metadata and related traces stay related under the operations of a tracer. -/
structure Respects (tracer : Tracer V τ span) (M : Option TraceMetadata → Option TraceMetadata → Prop)
    (T : τ → τ → Prop) : Prop where
  startTrace : ∀ {name dims input md md' traces traces'}, M md md' → T traces traces' →
    SameAnswer T (tracer.startTrace name dims input md traces)
      (tracer.startTrace name dims input md' traces')
  recordTool : ∀ {s name input output traces traces'}, T traces traces' →
    T (tracer.recordTool s name input output traces) (tracer.recordTool s name input output traces')
  finish : ∀ {s output error traces traces'}, T traces traces' →
    T (tracer.finish s output error traces) (tracer.finish s output error traces')
  exit : ∀ {s exc traces traces'}, T traces traces' →
    SameAnswer T (tracer.exit s exc traces) (tracer.exit s exc traces')

/-! ## The event loop does not look at traces -/

section Loop

variable {T : τ → τ → Prop} {M : Option TraceMetadata → Option TraceMetadata → Prop}
  {tracer : Tracer V τ span} {s : span} {caps : BackendCapabilities} {onEvent : OnEvent V ω}
  {event : AgentEvent V}

/-- Loops in the same state, but for related traces. -/
structure LoopState.Alike (T : τ → τ → Prop) (st st' : LoopState V ω τ) : Prop where
  result : st.result = st'.result
  world : st.world = st'.world
  traces : T st.traces st'.traces

variable {st st' : LoopState V ω τ}

theorem callOnEvent_alike (h : st.Alike T st') :
    SameAnswer (LoopState.Alike T) (callOnEvent onEvent event st)
      (callOnEvent onEvent event st') := by
  cases onEvent with
  | none => exact ⟨rfl, h⟩
  | some f =>
    refine ⟨?_, h.result, ?_, h.traces⟩
    · show (f event st.world).1 = (f event st'.world).1
      rw [h.world]
    · show (f event st.world).2 = (f event st'.world).2
      rw [h.world]

theorem recordTool_alike (hT : Respects tracer M T) (h : st.Alike T st') :
    (recordTool tracer s event st).Alike T (recordTool tracer s event st') := by
  unfold recordTool
  split
  · exact ⟨h.result, h.world, hT.recordTool h.traces⟩
  · exact h

theorem onTerminal_alike (hT : Respects tracer M T) (h : st.Alike T st') :
    SameAnswer (LoopState.Alike T) (onTerminal tracer s event st)
      (onTerminal tracer s event st') := by
  unfold onTerminal
  split
  · split
    · exact ⟨rfl, h⟩
    · exact ⟨rfl, h.result, h.world, hT.finish h.traces⟩
  · split
    · exact ⟨rfl, h⟩
    · exact ⟨rfl, rfl, h.world, h.traces⟩
  · exact ⟨rfl, h⟩

theorem consumeEvent_alike (hT : Respects tracer M T) (h : st.Alike T st') :
    SameAnswer (LoopState.Alike T) (consumeEvent tracer s caps onEvent event st)
      (consumeEvent tracer s caps onEvent event st') := by
  unfold consumeEvent
  split
  · exact ⟨rfl, h⟩
  · obtain ⟨hanswer, hleft⟩ := callOnEvent_alike h
    generalize callOnEvent onEvent event st = x at hanswer hleft
    generalize callOnEvent onEvent event st' = y at hanswer hleft
    obtain ⟨a, left⟩ := x
    obtain ⟨b, left'⟩ := y
    cases hanswer
    cases a with
    | some exc => exact ⟨rfl, hleft⟩
    | none => exact onTerminal_alike hT (recordTool_alike hT hleft)

theorem consume_alike (hT : Respects tracer M T) (raised : Option (Raised V))
    (events : List (AgentEvent V)) (h : st.Alike T st') :
    SameAnswer (LoopState.Alike T) (consume tracer s caps onEvent raised events st)
      (consume tracer s caps onEvent raised events st') := by
  induction events generalizing st st' with
  | nil =>
    cases raised with
    | none => exact ⟨rfl, h⟩
    | some exc => exact ⟨rfl, h⟩
  | cons event events ih =>
    obtain ⟨hanswer, hleft⟩ := consumeEvent_alike (s := s)
      hT h
    unfold consume
    generalize consumeEvent tracer s caps onEvent event st = x at hanswer hleft
    generalize consumeEvent tracer s caps onEvent event st' = y at hanswer hleft
    obtain ⟨a, left⟩ := x
    obtain ⟨b, left'⟩ := y
    cases hanswer
    cases a with
    | error exc => exact ⟨rfl, hleft⟩
    | ok u => exact ih hleft

theorem conclude_alike (hT : Respects tracer M T) (h : st.Alike T st') :
    SameAnswer (LoopState.Alike T) (conclude tracer s st) (conclude tracer s st') := by
  unfold conclude
  rw [← h.result]
  split
  · exact ⟨rfl, rfl, h.world, hT.finish h.traces⟩
  · exact ⟨rfl, rfl, h.world, hT.finish h.traces⟩

theorem exitBlock_alike (hT : Respects tracer M T) {answer : Except (Raised V) (AgentRunResult V)}
    (h : st.Alike T st') :
    SameAnswer (LoopState.Alike T) (exitBlock tracer s answer st)
      (exitBlock tracer s answer st') := by
  obtain ⟨hanswer, htraces⟩ : SameAnswer T
      (tracer.exit s ((raisedOf answer).map Raised.str) st.traces)
      (tracer.exit s ((raisedOf answer).map Raised.str) st'.traces) := hT.exit h.traces
  unfold exitBlock
  generalize tracer.exit s ((raisedOf answer).map Raised.str) st.traces = x at hanswer htraces
  generalize tracer.exit s ((raisedOf answer).map Raised.str) st'.traces = y at hanswer htraces
  obtain ⟨left, traces⟩ := x
  obtain ⟨left', traces'⟩ := y
  cases hanswer
  cases left with
  | error e => exact ⟨rfl, h.result, h.world, htraces⟩
  | ok u => exact ⟨rfl, h.result, h.world, htraces⟩

theorem traced_alike (hT : Respects tracer M T) (stream : EventStream V (Raised V))
    (h : st.Alike T st') :
    SameAnswer (LoopState.Alike T) (traced tracer s caps onEvent stream st)
      (traced tracer s caps onEvent stream st') := by
  obtain ⟨hanswer, hleft⟩ := consume_alike (s := s) hT
    stream.raised stream.events h
  unfold traced
  generalize consume tracer s caps onEvent stream.raised stream.events st = x at hanswer hleft
  generalize consume tracer s caps onEvent stream.raised stream.events st' = y at hanswer hleft
  obtain ⟨a, left⟩ := x
  obtain ⟨b, left'⟩ := y
  cases hanswer
  cases a with
  | error exc => exact exitBlock_alike hT hleft
  | ok u =>
    obtain ⟨hconclusion, hend⟩ := conclude_alike (s := s) hT hleft
    dsimp only at hconclusion hend ⊢
    rw [← hconclusion]
    exact exitBlock_alike hT hend

end Loop

/-! ## A turn in another environment -/

/-- A backend whose run does not depend on the environment. -/
def Backend.IgnoresEnv (backend : Backend V ω) : Prop :=
  ∀ (req : AgentRunRequest V) (env : Dict String String) (w : ω),
    backend.run { req with env := env } w = backend.run req w

/-- Engine states that differ at most in related traces and in the environments sent. -/
structure EngineState.Alike (T : τ → τ → Prop) (s s' : EngineState V ω τ) : Prop where
  world : s.world = s'.world
  traces : T s.traces s'.traces

/-- The part of a turn that follows the lookup of its backend. -/
def turnRun (engine : Engine V ω τ span) (backend : Backend V ω) (t : TurnArgs V)
    (onEvent : OnEvent V ω) (s : EngineState V ω τ) :
    Except (Raised V) (AgentRunResult V) × LoopState V ω τ :=
  let started := engine.tracer.startTrace "agent-turn" (turnDims t) t.prompt t.traceMetadata s.traces
  let ran := backend.run (turnRequest backend.capabilities t) s.world
  traced engine.tracer started.1 backend.capabilities onEvent ran.1
    { result := none, world := ran.2, traces := started.2 }

theorem runTurn_registered {engine : Engine V ω τ span} {backend : Backend V ω} {t : TurnArgs V}
    (h : engine.registry t.backendName = some backend) (onEvent : OnEvent V ω)
    (s : EngineState V ω τ) :
    (runTurn engine t onEvent s).1 = (turnRun engine backend t onEvent s).1 ∧
      (runTurn engine t onEvent s).2.world = (turnRun engine backend t onEvent s).2.world ∧
      (runTurn engine t onEvent s).2.traces = (turnRun engine backend t onEvent s).2.traces := by
  simp only [runTurn, h, turnRun, and_self]

section Turn

variable {T : τ → τ → Prop} {M : Option TraceMetadata → Option TraceMetadata → Prop}
  {engine : Engine V ω τ span} {s s' : EngineState V ω τ}

theorem turnRun_alike (hT : Respects engine.tracer M T) {backend : Backend V ω}
    (hbackend : backend.IgnoresEnv) (onEvent : OnEvent V ω) (t : TurnArgs V)
    (env : Dict String String) (md : Option TraceMetadata) (hmd : M t.traceMetadata md)
    (h : s.Alike T s') :
    SameAnswer (LoopState.Alike T) (turnRun engine backend t onEvent s)
      (turnRun engine backend { t with env := env, traceMetadata := md } onEvent s') := by
  obtain ⟨hspan, htraces⟩ := hT.startTrace
    hmd h.traces
  have hrun : backend.run (turnRequest backend.capabilities
        { t with env := env, traceMetadata := md }) s'.world =
      backend.run (turnRequest backend.capabilities t) s.world := by
    rw [← h.world]
    exact hbackend (turnRequest backend.capabilities t) env s.world
  simp only [turnRun]
  rw [hrun, show turnDims { t with env := env, traceMetadata := md } = turnDims t from rfl, ← hspan]
  exact traced_alike hT _ ⟨rfl, rfl, htraces⟩

/-- **A turn does not show its environment.** -/
theorem runTurn_alike (hT : Respects engine.tracer M T)
    (hbackends : ∀ name backend, engine.registry name = some backend → backend.IgnoresEnv)
    (onEvent : OnEvent V ω) (t : TurnArgs V) (env : Dict String String)
    (md : Option TraceMetadata) (hmd : M t.traceMetadata md) (h : s.Alike T s') :
    SameAnswer (EngineState.Alike T) (runTurn engine t onEvent s)
      (runTurn engine { t with env := env, traceMetadata := md } onEvent s') := by
  cases hname : engine.registry t.backendName with
  | none =>
    rw [runTurn_unregistered hname,
      runTurn_unregistered (t := { t with env := env, traceMetadata := md }) hname]
    exact ⟨rfl, h⟩
  | some backend =>
    obtain ⟨hanswer, hleft⟩ := turnRun_alike hT (hbackends _ backend hname) onEvent t env md hmd h
    obtain ⟨ha, hworld, htraces⟩ := runTurn_registered hname onEvent s
    obtain ⟨ha', hworld', htraces'⟩ :=
      runTurn_registered (t := { t with env := env, traceMetadata := md }) hname onEvent s'
    refine ⟨?_, ?_, ?_⟩
    · rw [ha, ha', hanswer]
    · rw [hworld, hworld', hleft.world]
    · rw [htraces, htraces']
      exact hleft.traces

end Turn

/-! ## A call in another environment -/

section Call

/-- Worlds with the same store, whose engines are related. -/
structure World.Alike (E : ε → ε → Prop) (w w' : World σ ε) : Prop where
  store : w.store = w'.store
  engine : E w.engine w'.engine

variable {E : ε → ε → Prop} {S : SessionStore V σ} {turn : TurnFn V ε} {w w' : World σ ε}

/-- An operation of the store, and programs that go on alike. -/
theorem runStore_alike {op : StoreOp V} {k k' : op.Res → ConvProg V} (h : w.Alike E w')
    (hk : ∀ r v v', World.Alike E v v' → SameAnswer (World.Alike E)
      ((k r).run (handler S turn) v) ((k' r).run (handler S turn) v')) :
    SameAnswer (World.Alike E) (Prog.run (handler S turn) (.call (.store op) k) w)
      (Prog.run (handler S turn) (.call (.store op) k') w') := by
  have hleft : World.Alike E (handler S turn (.store op) w).2 (handler S turn (.store op) w').2 :=
    ⟨by simp only [handler, h.store], h.engine⟩
  have hanswer : (handler S turn (.store op) w').1 = (handler S turn (.store op) w).1 := by
    simp only [handler, h.store]
  simp only [Prog.call, Prog.run_vis, hanswer]
  cases (handler S turn (.store op) w).1 with
  | error e => exact ⟨rfl, hleft⟩
  | ok r => exact hk r _ _ hleft

/-- Two turns that answer alike, and one program that goes on. -/
theorem runTurns_alike {t t' : TurnArgs V} {k : AgentRunResult V → ConvProg V}
    (h : w.Alike E w') (ht : SameAnswer E (turn t w.engine) (turn t' w'.engine))
    (hk : ∀ r v v', World.Alike E v v' → SameAnswer (World.Alike E)
      ((k r).run (handler S turn) v) ((k r).run (handler S turn) v')) :
    SameAnswer (World.Alike E) (Prog.run (handler S turn) (.call (.runTurn t) k) w)
      (Prog.run (handler S turn) (.call (.runTurn t') k) w') := by
  have hleft : World.Alike E (handler S turn (.runTurn t) w).2
      (handler S turn (.runTurn t') w').2 := ⟨h.store, ht.2⟩
  have hanswer : (handler S turn (.runTurn t') w').1 = (handler S turn (.runTurn t) w).1 := ht.1.symm
  simp only [Prog.call, Prog.run_vis, hanswer]
  cases (handler S turn (.runTurn t) w).1 with
  | error e => exact ⟨rfl, hleft⟩
  | ok r => exact hk r _ _ hleft

/-- Every turn answers alike in another environment and with related metadata. -/
def TurnsAlike (M : Option TraceMetadata → Option TraceMetadata → Prop) (E : ε → ε → Prop)
    (turn : TurnFn V ε) : Prop :=
  ∀ (t : TurnArgs V) (env : Dict String String) (md : Option TraceMetadata) (e e' : ε),
    M t.traceMetadata md → E e e' →
      SameAnswer E (turn t e) (turn { t with env := env, traceMetadata := md } e')

variable {M : Option TraceMetadata → Option TraceMetadata → Prop}

theorem handleSave_alike (d : Draws) (c : Call V) (session : Session V) (r : AgentRunResult V)
    (h : w.Alike E w') :
    SameAnswer (World.Alike E) ((handleSave d c session r).run (handler S turn) w)
      ((handleSave d c session r).run (handler S turn) w') := by
  refine runStore_alike h fun _ v v' hv => ?_
  cases hmid : c.messageId with
  | none =>
    rw [handleMark_none hmid]
    exact ⟨rfl, hv⟩
  | some mid =>
    rw [handleMark_some hmid]
    exact runStore_alike hv fun _ _ _ hv' => ⟨rfl, hv'⟩

/-- **A call does not show its environment.** -/
theorem runHandle_alike (hturn : TurnsAlike M E turn) (d : Draws) (c : Call V)
    (env : Dict String String) (md : Option TraceMetadata) (hmd : M c.traceMetadata md)
    (h : w.Alike E w') :
    SameAnswer (World.Alike E) (runHandle S turn d c w)
      (runHandle S turn d { c with env := env, traceMetadata := md } w') := by
  refine runStore_alike h fun session v v' hv => ?_
  have hrest : ∀ v v', World.Alike E v v' → SameAnswer (World.Alike E)
      ((handleTurn d c session).run (handler S turn) v)
      ((handleTurn d { c with env := env, traceMetadata := md } session).run
        (handler S turn) v') := by
    intro v v' hv
    by_cases hrounds : session.roundCount ≥ session.maxRounds
    · rw [handleTurn_exceeded d c hrounds, handleTurn_exceeded d _ hrounds]
      exact ⟨rfl, hv⟩
    · rw [handleTurn_runs d c hrounds, handleTurn_runs d _ hrounds]
      exact runTurns_alike hv (hturn _ _ _ _ _ hmd hv.engine) fun r v v' hv =>
        handleSave_alike d c session r hv
  rcases Option.eq_none_or_eq_some c.messageId with hmid | ⟨mid, hmid⟩
  · rw [handleCheck_none d hmid,
      handleCheck_none d (c := { c with env := env, traceMetadata := md }) hmid]
    exact hrest v v' hv
  · rw [handleCheck_some d hmid,
      handleCheck_some d (c := { c with env := env, traceMetadata := md }) hmid]
    refine runStore_alike hv fun (dup : Bool) v v' hv => ?_
    cases dup with
    | true => exact ⟨rfl, hv⟩
    | false => exact hrest v v' hv

end Call

/-! ## The gateway under two secret providers -/

/-- The same metadata, or what the gateway gives for related redacted environments. -/
def ShownAlike (R : Dict String String → Dict String String → Prop)
    (md md' : Option TraceMetadata) : Prop :=
  md = md' ∨ ∃ env env', R env env' ∧
    md = some ((∅ : TraceMetadata).set "redacted_env" env) ∧
    md' = some ((∅ : TraceMetadata).set "redacted_env" env')

section Gateway

variable {R : Dict String String → Dict String String → Prop} {E : ε → ε → Prop}
  {S : SessionStore V σ} {turn : TurnFn V ε} {w w' : World σ ε} {resolver : WorkspaceResolver}
  {p q : SecretProvider}

theorem gatewayHandle_alike (hturn : TurnsAlike (ShownAlike R) E turn)
    (hresolve : ∀ workspaceId userId, SameOutcome (ResolvedWorkspace.Alike R)
      ({ resolver with secrets := p }.resolve workspaceId userId)
      ({ resolver with secrets := q }.resolve workspaceId userId))
    (d : Draws) (g : GatewayCall) (h : w.Alike E w') :
    SameAnswer (World.Alike E)
      ((gatewayHandle { resolver with secrets := p } d g).run (handler S turn) w)
      ((gatewayHandle { resolver with secrets := q } d g).run (handler S turn) w') := by
  have hws := hresolve g.workspaceId g.userId
  unfold gatewayHandle
  generalize { resolver with secrets := p }.resolve g.workspaceId g.userId = x at hws ⊢
  generalize { resolver with secrets := q }.resolve g.workspaceId g.userId = y at hws ⊢
  cases x with
  | error e =>
    cases y with
    | error e' =>
      cases hws
      exact ⟨rfl, h⟩
    | ok ws' => exact hws.elim
  | ok ws =>
    cases y with
    | error e' => exact hws.elim
    | ok ws' =>
      have hws : ws.Alike R ws' := hws
      have hcall : (g.inWorkspace ws' : Call V) = { (g.inWorkspace ws : Call V) with
          env := ws'.env
          traceMetadata := some ((∅ : TraceMetadata).set "redacted_env" ws'.redactedEnv) } := by
        simp only [GatewayCall.inWorkspace, chosenBackend, chosenMaxRounds, hws.cwd,
          hws.backendName, hws.maxRounds]
      show SameAnswer _ (runHandle S turn d (g.inWorkspace ws) w)
        (runHandle S turn d (g.inWorkspace ws') w')
      rw [hcall]
      exact runHandle_alike hturn d _ _ _ (.inr ⟨_, _, hws.redactedEnv, rfl, rfl⟩) h

/-- Calls one after the other answer alike. -/
theorem runGateway_alike (hturn : TurnsAlike (ShownAlike R) E turn)
    (hresolve : ∀ workspaceId userId, SameOutcome (ResolvedWorkspace.Alike R)
      ({ resolver with secrets := p }.resolve workspaceId userId)
      ({ resolver with secrets := q }.resolve workspaceId userId))
    (calls : List (Draws × GatewayCall)) (h : w.Alike E w') :
    SameAnswer (World.Alike E) (runGateway { resolver with secrets := p } S turn calls w)
      (runGateway { resolver with secrets := q } S turn calls w') := by
  induction calls generalizing w w' with
  | nil => exact ⟨rfl, h⟩
  | cons call calls ih =>
    obtain ⟨d, g⟩ := call
    obtain ⟨hanswer, hleft⟩ := gatewayHandle_alike (S := S) hturn hresolve d g h
    obtain ⟨hanswers, hlast⟩ := ih hleft
    refine ⟨?_, hlast⟩
    simp only [runGateway]
    rw [hanswer, hanswers]

/-! ## Traces in memory -/

/-- Two traces that are the same but for related redacted environments. -/
structure TraceRecord.Alike (R : Dict String String → Dict String String → Prop)
    (r r' : TraceRecord V) : Prop where
  metadata : ShownAlike R (some r.metadata) (some r'.metadata)
  rest : r' = { r with metadata := r'.metadata }

theorem TraceRecord.Alike.finish {r r' : TraceRecord V} (h : TraceRecord.Alike R r r')
    (output : Option V) (error : Option String) :
    TraceRecord.Alike R (r.finish output error) (r'.finish output error) := by
  obtain ⟨hmd, hr⟩ := h
  rw [hr]
  unfold TraceRecord.finish
  dsimp only
  split
  · exact ⟨hmd, rfl⟩
  · exact ⟨hmd, rfl⟩

theorem TraceRecord.Alike.recordTool {r r' : TraceRecord V} (h : TraceRecord.Alike R r r')
    (name : V) (input output : Option V) :
    TraceRecord.Alike R (r.recordTool name input output) (r'.recordTool name input output) := by
  obtain ⟨hmd, hr⟩ := h
  rw [hr]
  exact ⟨hmd, rfl⟩

theorem TraceRecord.Alike.exit {r r' : TraceRecord V} (h : TraceRecord.Alike R r r')
    (exc : Option (Except Thrown String)) :
    SameAnswer (TraceRecord.Alike R) (r.exit exc) (r'.exit exc) := by
  have hfinished : r'.finished = r.finished := by rw [h.2]
  unfold TraceRecord.exit
  rw [hfinished]
  split
  · exact ⟨rfl, h⟩
  · split
    next error _ => exact ⟨rfl, h.finish none error⟩
    next => exact ⟨rfl, h⟩

theorem modify_alike {traces traces' : List (TraceRecord V)} {f : TraceRecord V → TraceRecord V}
    (h : List.Forall₂ (TraceRecord.Alike R) traces traces')
    (hf : ∀ r r', TraceRecord.Alike R r r' → TraceRecord.Alike R (f r) (f r')) (i : Nat) :
    List.Forall₂ (TraceRecord.Alike R) (traces.modify i f) (traces'.modify i f) := by
  induction h generalizing i with
  | nil =>
    rw [List.modify_nil]
    exact .nil
  | cons hr hrest ih =>
    cases i with
    | zero => exact .cons (hf _ _ hr) hrest
    | succ i => exact .cons hr (ih i)

/-- A method that answers the same on related records. -/
theorem methodAt_alike {traces traces' : List (TraceRecord V)}
    {method : TraceRecord V → Except Thrown Unit × TraceRecord V}
    (h : List.Forall₂ (TraceRecord.Alike R) traces traces')
    (hmethod : ∀ r r', TraceRecord.Alike R r r' →
      SameAnswer (TraceRecord.Alike R) (method r) (method r')) (i : Nat) :
    SameAnswer (List.Forall₂ (TraceRecord.Alike R)) (methodAt method i traces)
      (methodAt method i traces') := by
  refine ⟨?_, modify_alike h (fun r r' hr => (hmethod r r' hr).2) i⟩
  unfold methodAt
  dsimp only
  induction h generalizing i with
  | nil => rfl
  | cons hr hrest ih =>
    cases i with
    | zero => exact (hmethod _ _ hr).1
    | succ i => exact ih i

/-- **The memory tracer keeps what it is given, and no more.** -/
theorem memoryTracer_respects :
    Respects (memoryTracer (V := V)) (ShownAlike R) (List.Forall₂ (TraceRecord.Alike R)) where
  startTrace := by
    intro name dims input md md' traces traces' hmd h
    refine ⟨h.length_eq, List.rel_append h (.cons ⟨?_, rfl⟩ .nil)⟩
    rcases hmd with rfl | ⟨env, env', hR, rfl, rfl⟩
    · exact .inl rfl
    · exact .inr ⟨env, env', hR, rfl, rfl⟩
  recordTool h := modify_alike h (fun _ _ hr => hr.recordTool _ _ _) _
  finish h := modify_alike h (fun _ _ hr => hr.finish _ _) _
  exit h := methodAt_alike h (fun _ _ hr => hr.exit _) _

theorem TraceRecord.Alike.refl (r : TraceRecord V) : TraceRecord.Alike R r r := ⟨.inl rfl, rfl⟩

theorem TraceRecord.Alike.eq {r r' : TraceRecord V} (h : TraceRecord.Alike Eq r r') : r = r' := by
  have hmd : r.metadata = r'.metadata := by
    rcases h.metadata with hmd | ⟨env, _, rfl, hmd, hmd'⟩
    · exact Option.some.inj hmd
    · exact Option.some.inj (hmd.trans hmd'.symm)
  rw [h.rest, ← hmd]

theorem forall₂_alike_eq {traces traces' : List (TraceRecord V)}
    (h : List.Forall₂ (TraceRecord.Alike Eq) traces traces') : traces = traces' := by
  rw [← List.forall₂_eq_eq_eq]
  exact h.imp fun _ _ hr => hr.eq

end Gateway

/-! ## The two runs -/

section Runs

/-- A world whose traces are in memory. -/
abbrev TracedWorld (V ω σ : Type) := World σ (EngineState V ω (List (TraceRecord V)))

variable {R Q : Dict String String → Dict String String → Prop}

/-- Related secrets lead two runs from one world to equal answers, stores and backend states, and
to traces alike. -/
theorem runGateway_secrets (hkeys : ∀ s t, Q s t → SameKeys s t)
    (hredact : ∀ base s t : Dict String String, Q s t →
      R (redact (base.update s) s.keys) (redact (base.update t) t.keys))
    (resolver : WorkspaceResolver) {p q : SecretProvider} (hpq : p.Alike Q q)
    (S : SessionStore V σ) (registry : EngineRegistry V ω)
    (hbackends : ∀ name backend, registry name = some backend → backend.IgnoresEnv)
    (calls : List (Draws × GatewayCall)) (w : TracedWorld V ω σ) :
    SameAnswer (World.Alike (EngineState.Alike (List.Forall₂ (TraceRecord.Alike R))))
      (runGateway { resolver with secrets := p } S (engineTurn ⟨registry, memoryTracer⟩) calls w)
      (runGateway { resolver with secrets := q } S (engineTurn ⟨registry, memoryTracer⟩) calls w) :=
  runGateway_alike
    (fun t env md _ _ hmd he => runTurn_alike memoryTracer_respects hbackends none t env md hmd he)
    (WorkspaceResolver.resolve_alike hkeys hredact hpq) calls
    ⟨rfl, rfl, List.forall₂_same.mpr fun r _ => .refl r⟩

/-- **Secrets are not shown.** Two providers know the same keys in every workspace, with any values
and in any order. Every sequence of calls of the gateway, from any state, over any store and over
backends that do not look at their environment, then ends in the same results and exceptions, the
same store and the same traces, and resolved workspaces show equal dictionaries. Where the keys
also come in the same order, the texts that are printed are the same. -/
theorem secrets_not_shown (py : Interpreter) (resolver : WorkspaceResolver) (p q : SecretProvider)
    (hpq : p.Alike SameKeys q) (S : SessionStore V σ) (registry : EngineRegistry V ω)
    (hbackends : ∀ name backend, registry name = some backend → backend.IgnoresEnv)
    (calls : List (Draws × GatewayCall)) (w : TracedWorld V ω σ) :
    let resolver₁ := { resolver with secrets := p }
    let resolver₂ := { resolver with secrets := q }
    let out₁ := runGateway resolver₁ S (engineTurn ⟨registry, memoryTracer⟩) calls w
    let out₂ := runGateway resolver₂ S (engineTurn ⟨registry, memoryTracer⟩) calls w
    (out₁.1 = out₂.1 ∧ out₁.2.store = out₂.2.store ∧
        out₁.2.engine.world = out₂.2.engine.world ∧
        List.Forall₂ (TraceRecord.Alike SameItems) out₁.2.engine.traces out₂.2.engine.traces ∧
        ∀ workspaceId userId, SameOutcome (ResolvedWorkspace.Alike SameItems)
          (resolver₁.resolve workspaceId userId) (resolver₂.resolve workspaceId userId)) ∧
      (p.Alike SameKeyOrder q →
        out₁.2.engine.traces = out₂.2.engine.traces ∧
        ∀ workspaceId userId,
          SameOutcome (ResolvedWorkspace.Alike Eq)
            (resolver₁.resolve workspaceId userId) (resolver₂.resolve workspaceId userId) ∧
          SameOutcome (ResolvedWorkspace.SameRepr py)
            (resolver₁.resolve workspaceId userId) (resolver₂.resolve workspaceId userId)) := by
  intro resolver₁ resolver₂ out₁ out₂
  obtain ⟨hanswers, hleft⟩ := runGateway_secrets (R := SameItems) (fun _ _ h => h)
    (fun base _ _ h => redact_update_sameItems base h) resolver hpq S registry hbackends calls w
  refine ⟨⟨hanswers, hleft.store, hleft.engine.world, hleft.engine.traces, ?_⟩, fun horder => ?_⟩
  · exact WorkspaceResolver.resolve_alike (fun _ _ h => h)
      (fun base _ _ h => redact_update_sameItems base h) hpq
  have hkeys : ∀ s t, SameKeyOrder s t → SameKeys s t := fun s t h k => by
    rw [show s.keys = t.keys from h]
  have hredact : ∀ base s t : Dict String String, SameKeyOrder s t →
      redact (base.update s) s.keys = redact (base.update t) t.keys :=
    fun base _ _ h => redact_update_eq base h
  obtain ⟨-, hleft'⟩ :=
    runGateway_secrets (R := Eq) hkeys hredact resolver horder S registry hbackends calls w
  refine ⟨forall₂_alike_eq hleft'.engine.traces, fun workspaceId userId => ⟨?_, ?_⟩⟩
  · exact WorkspaceResolver.resolve_alike hkeys hredact horder workspaceId userId
  · exact WorkspaceResolver.resolve_repr py horder workspaceId userId

end Runs

/-- A provider with one secret, in one workspace. -/
def oneSecret (value : String) : SecretProvider :=
  inMemorySecretProvider ((∅ : Dict String (Dict String String)).set "w"
    ((∅ : Dict String String).set "TOKEN" value))

/-- A resolver with one variable of its own and the given secrets. -/
def resolverWith (secrets : SecretProvider) : WorkspaceResolver :=
  { config := layeredConfigProvider ((∅ : Dict String String).set "LANG" "C") ∅
    secrets, root := "/srv/ws" }

/-- An interpreter that prints every character and iterates sets in the order of their elements. -/
def plainInterpreter : Interpreter where
  isPrintable _ := true
  setOrder xs := xs.insertionSort (· ≤ ·)
  setOrder_perm xs _ := List.perm_insertionSort _ xs

/-- Two values of one secret leave one trace, and print the same. -/
theorem secrets_not_shown_once :
    let out := fun value => runGateway (resolverWith (oneSecret value)) (memoryLawful String).ops
      (engineTurn ⟨fun _ => some echoBackend, memoryTracer⟩)
      [(twoDraws true, { workspaceId := "w", channel := "feishu", externalThreadKey := "t",
                         text := "hi", backendName := "echo" })] ⟨.empty, ⟨(), [], []⟩⟩
    (out "one").2.engine.traces = (out "two").2.engine.traces ∧
      ((out "one").2.engine.traces.map fun r => (r.input, r.finished)) = [("hi", true)] := by
  intro out
  have horder : (oneSecret "one").Alike SameKeyOrder (oneSecret "two") := by
    intro workspaceId
    by_cases hw : workspaceId = "w"
    · subst hw
      rfl
    · simp only [oneSecret, inMemorySecretProvider, Dict.get?_set, if_neg hw]
      rfl
  have hkeys : (oneSecret "one").Alike SameKeys (oneSecret "two") := by
    intro workspaceId k
    rw [show _ = _ from horder workspaceId]
  obtain ⟨-, hprinted⟩ := secrets_not_shown plainInterpreter (resolverWith (oneSecret "one"))
    (oneSecret "one") (oneSecret "two") hkeys (memoryLawful String).ops
    (fun _ => some echoBackend) (by rintro _ _ ⟨⟩ _ _ _; rfl) _ ⟨.empty, ⟨(), [], []⟩⟩
  exact ⟨(hprinted horder).1, rfl⟩

/-- The same two secrets in another order: the resolved workspace prints another text. -/
theorem secrets_order_printed :
    let secrets : List String → SecretProvider := fun keys _ =>
      .ok (keys.foldl (fun d k => d.set k "x") (∅ : Dict String String))
    (secrets ["A", "B"]).Alike SameKeys (secrets ["B", "A"]) ∧
      ¬ SameOutcome (ResolvedWorkspace.SameRepr plainInterpreter)
        ((resolverWith (secrets ["A", "B"])).resolve "w")
        ((resolverWith (secrets ["B", "A"])).resolve "w") := by
  intro secrets
  refine ⟨fun _ k => ?_, ?_⟩
  · show k ∈ ["A", "B"] ↔ k ∈ ["B", "A"]
    simp only [List.mem_cons, List.not_mem_nil, or_false]
    exact or_comm
  -- both workspaces resolve; what is left is to compare the two texts
  · show ¬ (_ : String) = _
    decide +kernel

end ClawEngine.Orchestration
