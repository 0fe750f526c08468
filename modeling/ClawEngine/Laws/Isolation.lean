import ClawEngine.Laws.Conversation
import ClawEngine.Laws.Secrets

/-!
# Workspaces are isolated

Two histories of gateway calls with the same calls for one workspace, in which that workspace is
configured alike. The calls for it end alike and hand the same requests to backends, whatever the
other calls are, up to the ids drawn for its sessions: the i-th call for the workspace draws one id
in each history, and these correspond (`DrawnTogether`).

The reference of a workspace's keys only looks at the calls for them. The two references are
related call after call for the workspace (`PastsAlike`), calls for other workspaces keep them
related, and related references give related outcomes.
-/

set_option autoImplicit false

namespace ClawEngine.Context

open ClawEngine.Core

/-- Two resolvers configure a workspace alike. -/
structure WorkspaceResolver.SameFor (workspaceId : String) (R R' : WorkspaceResolver) : Prop where
  root : R.root = R'.root
  config : R.config workspaceId = R'.config workspaceId
  secrets : R.secrets workspaceId = R'.secrets workspaceId
  userEnv : ∀ userId, R.userEnv workspaceId userId = R'.userEnv workspaceId userId
  spec : R.specs.get? workspaceId = R'.specs.get? workspaceId

theorem WorkspaceResolver.SameFor.resolve {R R' : WorkspaceResolver} {workspaceId : String}
    (h : R.SameFor workspaceId R') (userId : Option String) :
    R.resolve workspaceId userId = R'.resolve workspaceId userId := by
  unfold WorkspaceResolver.resolve WorkspaceResolver.workspace
  rw [h.root, h.config, h.secrets, h.userEnv, h.spec]

end ClawEngine.Context

namespace ClawEngine.Orchestration

open ClawEngine.Core ClawEngine.Context ClawEngine.Runtime ClawEngine.Observability
  ClawEngine.Persistence

variable {V ω τ σ : Type}

/-! ## What a turn answers -/

/-- What a backend may look at. -/
structure RequestView (V : Type) where
  prompt : String
  cwd : String
  env : Dict String String
  backendThreadId : Option V
  model : Option String

def viewOf (req : AgentRunRequest V) : RequestView V :=
  ⟨req.prompt, req.cwd, req.env, req.backendThreadId, req.model⟩

/-- The event stream depends on the view of the request alone. -/
def Backend.ReadsView (backend : Backend V ω) : Prop :=
  ∀ (req req' : AgentRunRequest V) (world world' : ω), viewOf req = viewOf req' →
    (backend.run req world).1 = (backend.run req' world').1

section Loop

variable (tracer : Tracer V τ σ) (span span' : σ) (caps : BackendCapabilities)
  {st st' : LoopState V ω τ}

/-- Loops with the same result so far, on spans that both ask for a text, or neither. -/
structure LoopState.Same (tracer : Tracer V τ σ) (span span' : σ) (st st' : LoopState V ω τ) :
    Prop where
  result : st.result = st'.result
  asks : tracer.asksText span st.traces = tracer.asksText span' st'.traces

/-- Two parts of a loop answer the same, and end the same unless they raise what has a text. -/
structure PartAlike (tracer : Tracer V τ σ) (span span' : σ)
    (x x' : Except (Raised V) Unit × LoopState V ω τ) : Prop where
  answer : x.1 = x'.1
  ended : x.2.Same tracer span span' x'.2 ∨ ∃ exc, x.1 = .error exc ∧ exc.Prints

theorem recordTool_same (event : AgentEvent V) (h : st.Same tracer span span' st') :
    (recordTool tracer span event st).Same tracer span span' (recordTool tracer span' event st') := by
  unfold recordTool
  split
  · refine ⟨h.result, ?_⟩
    show tracer.asksText span (tracer.recordTool ..) = tracer.asksText span' (tracer.recordTool ..)
    rw [tracer.asksText_recordTool, tracer.asksText_recordTool]
    exact h.asks
  · exact h

theorem onTerminal_same (event : AgentEvent V) (h : st.Same tracer span span' st') :
    PartAlike tracer span span' (onTerminal tracer span event st)
      (onTerminal tracer span' event st') := by
  unfold onTerminal
  split
  · split
    · exact ⟨rfl, .inl h⟩
    · exact ⟨rfl, .inr ⟨_, rfl, _, rfl⟩⟩
  · split
    · exact ⟨rfl, .inl h⟩
    · exact ⟨rfl, .inl ⟨rfl, h.asks⟩⟩
  · exact ⟨rfl, .inl h⟩

theorem consumeEvent_same (event : AgentEvent V) (h : st.Same tracer span span' st') :
    PartAlike tracer span span' (consumeEvent tracer span caps none event st)
      (consumeEvent tracer span' caps none event st') := by
  unfold consumeEvent
  split
  · exact ⟨rfl, .inl h⟩
  · exact onTerminal_same tracer span span' event (recordTool_same tracer span span' event h)

theorem consume_same (raised : Option (Raised V)) (events : List (AgentEvent V))
    (h : st.Same tracer span span' st') :
    PartAlike tracer span span' (consume tracer span caps none raised events st)
      (consume tracer span' caps none raised events st') := by
  induction events generalizing st st' with
  | nil =>
    cases raised with
    | none => exact ⟨rfl, .inl h⟩
    | some exc => exact ⟨rfl, .inl h⟩
  | cons event events ih =>
    obtain ⟨hanswer, hended⟩ := consumeEvent_same tracer span span' caps event h
    unfold consume
    generalize consumeEvent tracer span caps none event st = x at hanswer hended
    generalize consumeEvent tracer span' caps none event st' = y at hanswer hended
    obtain ⟨a, left⟩ := x
    obtain ⟨b, left'⟩ := y
    cases hanswer
    cases a with
    | error exc => exact ⟨rfl, hended⟩
    | ok u =>
      obtain hsame | ⟨exc, hexc, -⟩ := hended
      · exact ih hsame
      · cases hexc

theorem conclude_same (h : st.result = st'.result) :
    (conclude tracer span st).1 = (conclude tracer span' st').1 := by
  unfold conclude
  rw [← h]
  split <;> rfl

/-- The block is left the same by spans that both ask for a text, or neither. -/
theorem exitBlock_same (answer : Except (Raised V) (AgentRunResult V))
    (h : tracer.asksText span st.traces = tracer.asksText span' st'.traces) :
    (exitBlock tracer span answer st).1 = (exitBlock tracer span' answer st').1 := by
  have hexit := tracer.exit_answer span ((raisedOf answer).map Raised.str) st.traces
  rw [h, ← tracer.exit_answer span' ((raisedOf answer).map Raised.str) st'.traces] at hexit
  unfold exitBlock
  generalize tracer.exit span ((raisedOf answer).map Raised.str) st.traces = x at hexit
  generalize tracer.exit span' ((raisedOf answer).map Raised.str) st'.traces = y at hexit
  obtain ⟨left, traces⟩ := x
  obtain ⟨left', traces'⟩ := y
  cases hexit
  cases left <;> rfl

theorem traced_same (stream : EventStream V (Raised V)) (h : st.Same tracer span span' st') :
    (traced tracer span caps none stream st).1 =
      (traced tracer span' caps none stream st').1 := by
  obtain ⟨hanswer, hended⟩ :=
    consume_same tracer span span' caps stream.raised stream.events h
  unfold traced
  generalize consume tracer span caps none stream.raised stream.events st = x at hanswer hended
  generalize consume tracer span' caps none stream.raised stream.events st' = y at hanswer hended
  obtain ⟨a, left⟩ := x
  obtain ⟨b, left'⟩ := y
  cases hanswer
  cases a with
  | error exc =>
    obtain hsame | ⟨exc', hexc, hprints⟩ := hended
    · exact exitBlock_same tracer span span' (.error exc) hsame.asks
    · obtain rfl : exc = exc' := Except.error.inj hexc
      have hthrough : ∀ e, (.error exc : Except (Raised V) (AgentRunResult V)) = .error e →
          e.Prints := by
        rintro e ⟨⟩
        exact hprints
      exact (exitBlock_answer (.inl hthrough)).trans (exitBlock_answer (.inl hthrough)).symm
  | ok u =>
    obtain hsame | ⟨exc, hexc, -⟩ := hended
    · have hconclude := conclude_same tracer span span' hsame.result
      refine (exitBlock_answer (.inl fun exc hexc => conclude_prints hexc)).trans
        (hconclude.trans (exitBlock_answer (.inl fun exc hexc => conclude_prints hexc)).symm)
    · cases hexc

end Loop

/-- Turns that ask for the same run. -/
structure TurnArgs.Alike (t t' : TurnArgs V) : Prop where
  backendName : t.backendName = t'.backendName
  prompt : t.prompt = t'.prompt
  cwd : t.cwd = t'.cwd
  env : t.env = t'.env
  backendThreadId : t.backendThreadId = t'.backendThreadId
  model : t.model = t'.model

/-- What is compared of a request: the backend it is for and what that may look at. -/
def SentRequest.shown (r : SentRequest V) : String × RequestView V :=
  (r.backendName, viewOf r.request)

section Turn

variable {engine : Engine V ω τ σ} {t t' : TurnArgs V}

theorem TurnArgs.Alike.view (h : t.Alike t') (caps : BackendCapabilities) :
    viewOf (turnRequest caps t) = viewOf (turnRequest caps t') := by
  simp only [viewOf, turnRequest, h.prompt, h.cwd, h.env, h.backendThreadId, h.model]

theorem TurnArgs.Alike.requests (h : t.Alike t') :
    (turnRequests engine t).map SentRequest.shown =
      (turnRequests engine t').map SentRequest.shown := by
  unfold turnRequests
  rw [h.backendName]
  split
  · rfl
  · simp only [List.map_cons, List.map_nil, SentRequest.shown, h.view]

/-- **Turns that ask for the same run answer the same**, from any two engine states. -/
theorem TurnArgs.Alike.answer
    (hreads : ∀ name backend, engine.registry name = some backend → backend.ReadsView)
    (h : t.Alike t') (s s' : EngineState V ω τ) :
    (engineTurn engine t s).1 = (engineTurn engine t' s').1 := by
  cases hname : engine.registry t.backendName with
  | none =>
    have hname' := h.backendName ▸ hname
    rw [engineTurn, engineTurn, runTurn_unregistered hname, runTurn_unregistered hname',
      h.backendName]
  | some backend =>
    have hname' := h.backendName ▸ hname
    rw [engineTurn, engineTurn, (runTurn_registered hname none s).1,
      (runTurn_registered hname' none s').1]
    simp only [turnRun]
    rw [hreads _ backend hname _ _ s.world s'.world (h.view backend.capabilities)]
    exact traced_same _ _ _ _ _ ⟨rfl, (engine.tracer.asksText_start ..).trans
      (engine.tracer.asksText_start ..).symm⟩

end Turn

/-! ## Related references -/

/-- The calls of a history for a workspace. -/
def inWorkspace (workspaceId : String) (past : List (Entry V ω τ)) : List (Entry V ω τ) :=
  past.filter (·.call.workspaceId = workspaceId)

/-- The same call, ended alike, with related ids drawn for it. -/
structure EntryAlike (ρ : String → String → Prop) (e e' : Entry V ω τ) : Prop where
  call : e.call = e'.call
  uuid : ρ e.draws.uuid e'.draws.uuid
  outcome : e.outcome.toOption = e'.outcome.toOption

/-- Two pasts with related calls for a workspace. -/
def PastsAlike (ρ : String → String → Prop) (workspaceId : String)
    (past past' : List (Entry V ω τ)) : Prop :=
  List.Forall₂ (EntryAlike ρ) (inWorkspace workspaceId past) (inWorkspace workspaceId past')

/-- Sessions alike but for related ids, and for the time of the last turn. -/
structure SessionAlike (ρ : String → String → Prop) (s s' : Session V) : Prop where
  sessionId : ρ s.sessionId s'.sessionId
  backendName : s.backendName = s'.backendName
  backendThreadId : s.backendThreadId = s'.backendThreadId
  roundCount : s.roundCount = s'.roundCount
  maxRounds : s.maxRounds = s'.maxRounds

section Reference

variable {ρ : String → String → Prop} {past past' : List (Entry V ω τ)} {k : Key}

theorem find?_inWorkspace (past : List (Entry V ω τ)) (k : Key) :
    (inWorkspace k.workspaceId past).find? (·.call.key = k) = past.find? (·.call.key = k) := by
  rw [inWorkspace, List.find?_filter]
  congr 1
  funext e
  by_cases he : e.call.key = k
  · simp only [← he, Call.key, decide_true, and_self]
  · simp only [he, decide_false, Bool.false_eq_true, and_false]

theorem successes_inWorkspace (past : List (Entry V ω τ)) (k : Key) :
    successes (inWorkspace k.workspaceId past) k = successes past k := by
  rw [successes, inWorkspace, List.filterMap_filter, successes]
  congr 1
  funext e
  by_cases he : e.call.key = k
  · simp only [← he, Call.key, decide_true, if_true]
  · simp only [he, if_false, ite_self]

/-- The calls that succeeded on a key, with their results. -/
def succeeded (past : List (Entry V ω τ)) (k : Key) : List (Call V × AgentRunResult V) :=
  (successes past k).map fun x => (x.1.call, x.2)

theorem PastsAlike.succeeded (h : PastsAlike ρ k.workspaceId past past') :
    succeeded past k = succeeded past' k := by
  rw [Orchestration.succeeded, Orchestration.succeeded, ← successes_inWorkspace past,
    ← successes_inWorkspace past']
  unfold PastsAlike at h
  generalize inWorkspace k.workspaceId past = entries at h ⊢
  generalize inWorkspace k.workspaceId past' = entries' at h ⊢
  induction h with
  | nil => rfl
  | @cons e e' rest rest' he _ ih =>
    unfold successes at ih ⊢
    simp only [List.filterMap_cons]
    rw [← he.call, ← he.outcome]
    by_cases hk : e.call.key = k
    · rw [if_pos hk, if_pos hk]
      cases e.outcome.toOption with
      | none => exact ih
      | some r =>
        simp only [Option.map_some, List.map_cons, he.call]
        rw [ih]
    · rw [if_neg hk, if_neg hk]
      exact ih

theorem PastsAlike.completed (h : PastsAlike ρ k.workspaceId past past') (mid : String) :
    completed past k mid = completed past' k mid := by
  have hany : ∀ past : List (Entry V ω τ), Orchestration.completed past k mid =
      (Orchestration.succeeded past k).any (·.1.messageId = some mid) := by
    intro past
    rw [Orchestration.completed, Orchestration.succeeded, List.any_map]
    rfl
  rw [hany, hany, h.succeeded]

theorem PastsAlike.results (h : PastsAlike ρ k.workspaceId past past') :
    (successes past k).map (·.2) = (successes past' k).map (·.2) := by
  have hresults : ∀ past : List (Entry V ω τ), (successes past k).map (·.2) =
      (Orchestration.succeeded past k).map (·.2) := by
    intro past
    rw [Orchestration.succeeded, List.map_map]
    rfl
  rw [hresults, hresults, h.succeeded]

theorem PastsAlike.first (h : PastsAlike ρ k.workspaceId past past') :
    Option.Rel (EntryAlike ρ) (past.find? (·.call.key = k)) (past'.find? (·.call.key = k)) := by
  rw [← find?_inWorkspace past, ← find?_inWorkspace past']
  unfold PastsAlike at h
  generalize inWorkspace k.workspaceId past = entries at h ⊢
  generalize inWorkspace k.workspaceId past' = entries' at h ⊢
  induction h with
  | nil => exact .none
  | @cons e e' rest rest' he _ ih =>
    rw [List.find?_cons, List.find?_cons, ← he.call]
    by_cases hk : e.call.key = k
    · simp only [hk, decide_true]
      exact .some he
    · simp only [hk, decide_false]
      exact ih

/-- **Related pasts leave related sessions.** -/
theorem PastsAlike.session (h : PastsAlike ρ k.workspaceId past past') :
    Option.Rel (SessionAlike ρ) (refSession past k) (refSession past' k) := by
  have hresults := h.results
  have hlength := congrArg List.length hresults
  have hlast := congrArg List.getLast? hresults
  simp only [List.length_map] at hlength
  rw [List.getLast?_map, List.getLast?_map] at hlast
  have hthread : ∀ o : Option (Entry V ω τ × AgentRunResult V),
      o.bind (·.2.backendThreadId) = (o.map (·.2)).bind (·.backendThreadId) := by
    intro o
    cases o <;> rfl
  have hfirst := h.first
  unfold refSession
  generalize past.find? (·.call.key = k) = first at hfirst ⊢
  generalize past'.find? (·.call.key = k) = first' at hfirst ⊢
  cases hfirst with
  | none => exact .none
  | @some first first' he =>
    refine .some ⟨he.uuid, ?_, ?_, ?_, ?_⟩
    · show first.call.backendName = first'.call.backendName
      rw [he.call]
    · show (successes past k).getLast?.bind _ = (successes past' k).getLast?.bind _
      rw [hthread, hthread, hlast]
    · show ((successes past k).length : Int) = (successes past' k).length
      rw [hlength]
    · show first.call.maxRounds = first'.call.maxRounds
      rw [he.call]

end Reference

/-! ## A call on related references -/

/-- The same exception, but for related session ids. -/
inductive Raised.Alike (ρ : String → String → Prop) : Raised V → Raised V → Prop
  | same (x : Raised V) : Raised.Alike ρ x x
  | duplicateMessage {id id' : String} (mid : String) :
      ρ id id' → Raised.Alike ρ (.duplicateMessage id mid) (.duplicateMessage id' mid)
  | sessionRoundsExceeded {id id' : String} (n : Int) :
      ρ id id' → Raised.Alike ρ (.sessionRoundsExceeded id n) (.sessionRoundsExceeded id' n)

/-- The same result, or the same exception but for related session ids. -/
inductive OutcomeAlike (ρ : String → String → Prop) :
    Except (Raised V) (AgentRunResult V) → Except (Raised V) (AgentRunResult V) → Prop
  | ok (r : AgentRunResult V) : OutcomeAlike ρ (.ok r) (.ok r)
  | error {x y : Raised V} : x.Alike ρ y → OutcomeAlike ρ (.error x) (.error y)

theorem OutcomeAlike.refl (ρ : String → String → Prop)
    (x : Except (Raised V) (AgentRunResult V)) : OutcomeAlike ρ x x := by
  cases x with
  | error e => exact .error (.same e)
  | ok r => exact .ok r

theorem OutcomeAlike.toOption {ρ : String → String → Prop}
    {x y : Except (Raised V) (AgentRunResult V)} (h : OutcomeAlike ρ x y) :
    x.toOption = y.toOption := by
  cases h <;> rfl

/-- Two calls hand requests to backends that show the same. -/
def SendsAlike (before after before' after' : EngineState V ω τ) : Prop :=
  ∃ rs rs' : List (SentRequest V), after.sent = before.sent ++ rs ∧
    after'.sent = before'.sent ++ rs' ∧
    rs.map SentRequest.shown = rs'.map SentRequest.shown

theorem SendsAlike.none (s s' : EngineState V ω τ) : SendsAlike s s s' s' :=
  ⟨[], [], (List.append_nil _).symm, (List.append_nil _).symm, rfl⟩

section Call

variable {engine : Engine V ω τ σ} {ρ : String → String → Prop}
  {past past' : List (Entry V ω τ)} {e e' : Entry V ω τ}

theorem sessionFor_alike (hcall : e.call = e'.call) (huuid : ρ e.draws.uuid e'.draws.uuid)
    (h : PastsAlike ρ e.call.workspaceId past past') :
    SessionAlike ρ (sessionFor past e) (sessionFor past' e') := by
  have hsession : Option.Rel (SessionAlike ρ) (refSession past e.call.key)
      (refSession past' e.call.key) := PastsAlike.session h
  unfold sessionFor
  rw [← hcall]
  generalize refSession past e.call.key = s at hsession ⊢
  generalize refSession past' e.call.key = s' at hsession ⊢
  cases hsession with
  | none => exact ⟨huuid, rfl, rfl, rfl, rfl⟩
  | some hs => exact hs

theorem SessionAlike.turnArgs {s s' : Session V} (h : SessionAlike ρ s s') (c : Call V) :
    (c.turnArgs s).Alike (c.turnArgs s') :=
  ⟨h.backendName, rfl, rfl, rfl, h.backendThreadId, rfl⟩

/-- **The same call after related pasts** ends alike and hands over the same requests. -/
theorem Follows.alike
    (hreads : ∀ name backend, engine.registry name = some backend → backend.ReadsView)
    (h : Follows engine past e) (h' : Follows engine past' e') (hcall : e.call = e'.call)
    (huuid : ρ e.draws.uuid e'.draws.uuid) (hpasts : PastsAlike ρ e.call.workspaceId past past') :
    OutcomeAlike ρ e.outcome e'.outcome ∧
      SendsAlike e.before.engine e.after.engine e'.before.engine e'.after.engine := by
  have hs := sessionFor_alike hcall huuid hpasts
  have hcompleted : ∀ mid, completed past e.call.key mid = completed past' e'.call.key mid := by
    intro mid
    rw [← hcall]
    exact PastsAlike.completed hpasts mid
  have hidle : ¬ Runs past e → ¬ Runs past' e' →
      SendsAlike e.before.engine e.after.engine e'.before.engine e'.after.engine := by
    intro hruns hruns'
    rw [h.idle hruns, h'.idle hruns']
    exact .none _ _
  by_cases hdup : ∃ mid, e.call.messageId = some mid ∧ completed past e.call.key mid = true
  · obtain ⟨mid, hmid, hdone⟩ := hdup
    have hmid' : e'.call.messageId = some mid := hcall ▸ hmid
    have hdone' := (hcompleted mid).symm.trans hdone
    rw [h.duplicate mid hmid hdone, h'.duplicate mid hmid' hdone']
    refine ⟨.error (.duplicateMessage mid hs.sessionId), hidle ?_ ?_⟩
    · rintro ⟨hnew, -⟩
      rw [hnew mid hmid] at hdone
      cases hdone
    · rintro ⟨hnew, -⟩
      rw [hnew mid hmid'] at hdone'
      cases hdone'
  have hnew : ∀ mid, e.call.messageId = some mid → completed past e.call.key mid = false := by
    intro mid hmid
    rw [Bool.eq_false_iff]
    exact fun hdone => hdup ⟨mid, hmid, hdone⟩
  have hnew' : ∀ mid, e'.call.messageId = some mid → completed past' e'.call.key mid = false := by
    intro mid hmid
    rw [← hcompleted mid]
    exact hnew mid (hcall ▸ hmid)
  by_cases hrounds : (sessionFor past e).maxRounds ≤ (sessionFor past e).roundCount
  · have hrounds' : (sessionFor past' e').maxRounds ≤ (sessionFor past' e').roundCount := by
      rw [← hs.maxRounds, ← hs.roundCount]
      exact hrounds
    rw [h.exceeded hnew hrounds, h'.exceeded hnew' hrounds', ← hs.maxRounds]
    refine ⟨.error (.sessionRoundsExceeded _ hs.sessionId), hidle ?_ ?_⟩
    · exact fun hruns => absurd hruns.2 (not_lt.mpr hrounds)
    · exact fun hruns => absurd hruns.2 (not_lt.mpr hrounds')
  · have hruns : Runs past e := ⟨hnew, not_le.mp hrounds⟩
    have hruns' : Runs past' e' := by
      refine ⟨hnew', ?_⟩
      rw [← hs.maxRounds, ← hs.roundCount]
      exact hruns.2
    obtain ⟨hturn, hsent⟩ := h.runs hruns
    obtain ⟨hturn', hsent'⟩ := h'.runs hruns'
    rw [← hcall] at hturn' hsent'
    have hargs := hs.turnArgs e.call
    refine ⟨?_, _, _, hsent, hsent', hargs.requests⟩
    rw [show e.outcome = _ from congrArg Prod.fst hturn,
      show e'.outcome = _ from congrArg Prod.fst hturn', hargs.answer hreads _ e'.before.engine]
    exact .refl ρ _

end Call

/-! ## Histories of the gateway -/

/-- A call of the gateway: the resolver of its time and what is drawn for it. -/
structure GatewayStep where
  resolver : WorkspaceResolver
  draws : Draws
  call : GatewayCall

/-- A finished call of the gateway. -/
structure GatewayEntry (V ω τ : Type) where
  step : GatewayStep
  before : MemoryWorld V ω τ
  outcome : Except (Raised V) (AgentRunResult V)
  after : MemoryWorld V ω τ

/-- The call `g` made in the world `w`. -/
def gatewayEntry (engine : Engine V ω τ σ) (g : GatewayStep) (w : MemoryWorld V ω τ) :
    GatewayEntry V ω τ :=
  let out := (gatewayHandle g.resolver g.draws g.call).run
    (handler memorySessionStore (engineTurn engine)) w
  ⟨g, w, out.1, out.2⟩

/-- Calls of the gateway, one after another. -/
def gatewayHistory (engine : Engine V ω τ σ) : List GatewayStep → MemoryWorld V ω τ →
    List (GatewayEntry V ω τ)
  | [], _ => []
  | g :: gs, w =>
    gatewayEntry engine g w :: gatewayHistory engine gs (gatewayEntry engine g w).after

/-- The calls for a workspace. -/
def stepsFor (workspaceId : String) (gs : List GatewayStep) : List GatewayStep :=
  gs.filter (·.call.workspaceId = workspaceId)

/-- The finished calls for a workspace. -/
def entriesFor (workspaceId : String) (es : List (GatewayEntry V ω τ)) :
    List (GatewayEntry V ω τ) :=
  es.filter (·.step.call.workspaceId = workspaceId)

/-- The same call, in a workspace that is configured alike. -/
structure GatewayStep.SameFor (workspaceId : String) (g g' : GatewayStep) : Prop where
  call : g.call = g'.call
  resolver : g.resolver.SameFor workspaceId g'.resolver

/-- Two calls that end alike and hand the same requests to backends, but for related ids. -/
structure GatewayEntry.Alike (ρ : String → String → Prop) (e e' : GatewayEntry V ω τ) : Prop where
  call : e.step.call = e'.step.call
  outcome : OutcomeAlike ρ e.outcome e'.outcome
  requests : SendsAlike e.before.engine e.after.engine e'.before.engine e'.after.engine

/-- Ids drawn for the same call: the i-th of the one list and the i-th of the other. -/
def DrawnTogether (gs gs' : List GatewayStep) (id id' : String) : Prop :=
  (id, id') ∈ (gs.map (·.draws.uuid)).zip (gs'.map (·.draws.uuid))

/-- No id is drawn twice, before or from now on. -/
def Fresh (past : List (Entry V ω τ)) (gs : List GatewayStep) : Prop :=
  (past.map (·.draws.uuid) ++ gs.map (·.draws.uuid)).Nodup

/-- What a call of the gateway adds to the past: nothing, when its workspace does not resolve. -/
def recorded (engine : Engine V ω τ σ) (g : GatewayStep) (w : MemoryWorld V ω τ) :
    List (Entry V ω τ) :=
  match g.resolver.resolve g.call.workspaceId g.call.userId with
  | .error _ => []
  | .ok ws => [entryOf engine g.draws (g.call.inWorkspace ws) w]

section Step

variable {engine : Engine V ω τ σ} {past past' : List (Entry V ω τ)} {w w' : MemoryWorld V ω τ}
  {g g' : GatewayStep} {gs gs' : List GatewayStep} {workspaceId : String}
  {ρ : String → String → Prop}

theorem gatewayEntry_error {e : ContextError}
    (h : g.resolver.resolve g.call.workspaceId g.call.userId = .error e) :
    gatewayEntry engine g w = ⟨g, w, .error (.ofContext e), w⟩ := by
  simp only [gatewayEntry, gatewayHandle, h]
  rfl

theorem gatewayEntry_ok {ws : ResolvedWorkspace}
    (h : g.resolver.resolve g.call.workspaceId g.call.userId = .ok ws) :
    gatewayEntry engine g w =
      ⟨g, w, (entryOf engine g.draws (g.call.inWorkspace ws) w).outcome,
        (entryOf engine g.draws (g.call.inWorkspace ws) w).after⟩ := by
  simp only [gatewayEntry, gatewayHandle, h]
  rfl

theorem Fresh.head (h : Fresh past (g :: gs)) : g.draws.uuid ∉ past.map (·.draws.uuid) :=
  fun hmem => (List.nodup_append.mp h).2.2 _ hmem _ List.mem_cons_self rfl

/-- One more call of the gateway. -/
theorem gatewayEntry_reached (engine : Engine V ω τ σ) (h : Reached past w)
    (hfresh : Fresh past (g :: gs)) :
    Reached (past ++ recorded engine g w) (gatewayEntry engine g w).after ∧
      Fresh (past ++ recorded engine g w) gs := by
  unfold recorded
  cases hws : g.resolver.resolve g.call.workspaceId g.call.userId with
  | error e =>
    rw [gatewayEntry_error hws, List.append_nil]
    exact ⟨h, hfresh.sublist ((List.sublist_cons_self _ _).append_left _)⟩
  | ok ws =>
    rw [gatewayEntry_ok hws]
    refine ⟨entryOf_reached engine _ h hfresh.head, ?_⟩
    unfold Fresh
    rw [List.map_append, List.append_assoc]
    exact hfresh

theorem inWorkspace_recorded (h : g.call.workspaceId ≠ workspaceId) :
    inWorkspace workspaceId (past ++ recorded engine g w) = inWorkspace workspaceId past := by
  have hnone : inWorkspace workspaceId (recorded engine g w) = [] := by
    rw [inWorkspace, List.filter_eq_nil_iff]
    intro e he
    unfold recorded at he
    split at he
    · cases he
    · rw [List.mem_singleton] at he
      subst he
      rw [decide_eq_true_eq]
      exact h
  rw [inWorkspace, List.filter_append, ← inWorkspace, ← inWorkspace, hnone, List.append_nil]

theorem entriesFor_cons_own {e : GatewayEntry V ω τ} {es : List (GatewayEntry V ω τ)}
    (h : e.step.call.workspaceId = workspaceId) :
    entriesFor workspaceId (e :: es) = e :: entriesFor workspaceId es :=
  List.filter_cons_of_pos (decide_eq_true h)

theorem entriesFor_cons_other {e : GatewayEntry V ω τ} {es : List (GatewayEntry V ω τ)}
    (h : e.step.call.workspaceId ≠ workspaceId) :
    entriesFor workspaceId (e :: es) = entriesFor workspaceId es := by
  refine List.filter_cons_of_neg ?_
  rw [decide_eq_true_eq]
  exact h

/-- **Calls for other workspaces** leave the calls for this one as they are. -/
theorem others_reached (engine : Engine V ω τ σ) (h : Reached past w) (hfresh : Fresh past (gs ++ gs'))
    (hothers : ∀ g ∈ gs, g.call.workspaceId ≠ workspaceId) :
    ∃ (past' : List (Entry V ω τ)) (w' : MemoryWorld V ω τ), Reached past' w' ∧
      Fresh past' gs' ∧ inWorkspace workspaceId past' = inWorkspace workspaceId past ∧
      entriesFor workspaceId (gatewayHistory engine (gs ++ gs') w) =
        entriesFor workspaceId (gatewayHistory engine gs' w') := by
  induction gs generalizing past w with
  | nil => exact ⟨past, w, h, hfresh, rfl, rfl⟩
  | cons g gs ih =>
    have hg := hothers g List.mem_cons_self
    obtain ⟨hreached, hfresh'⟩ := gatewayEntry_reached engine h hfresh
    obtain ⟨past', w', h', hleft, hin, hentries⟩ :=
      ih hreached hfresh' fun g' hg' => hothers g' (List.mem_cons_of_mem _ hg')
    refine ⟨past', w', h', hleft, hin.trans (inWorkspace_recorded hg), ?_⟩
    rw [← hentries]
    exact entriesFor_cons_other hg

/-- **The same call for the workspace** ends alike, and leaves related pasts. -/
theorem gatewayEntry_alike
    (hreads : ∀ name backend, engine.registry name = some backend → backend.ReadsView)
    (h : Reached past w) (h' : Reached past' w') (hfresh : Fresh past (g :: gs))
    (hfresh' : Fresh past' (g' :: gs')) (hpasts : PastsAlike ρ g.call.workspaceId past past')
    (hsame : g.SameFor g.call.workspaceId g') (huuid : ρ g.draws.uuid g'.draws.uuid) :
    (gatewayEntry engine g w).Alike ρ (gatewayEntry engine g' w') ∧
      PastsAlike ρ g.call.workspaceId (past ++ recorded engine g w)
        (past' ++ recorded engine g' w') := by
  have hresolve := hsame.resolver.resolve g.call.userId
  unfold recorded
  cases hws : g.resolver.resolve g.call.workspaceId g.call.userId with
  | error e =>
    have hws' : g'.resolver.resolve g'.call.workspaceId g'.call.userId = .error e := by
      rw [← hsame.call, ← hresolve, hws]
    rw [gatewayEntry_error hws, gatewayEntry_error hws', hws', List.append_nil, List.append_nil]
    exact ⟨⟨hsame.call, .refl ρ _, .none _ _⟩, hpasts⟩
  | ok ws =>
    have hws' : g'.resolver.resolve g'.call.workspaceId g'.call.userId = .ok ws := by
      rw [← hsame.call, ← hresolve, hws]
    rw [gatewayEntry_ok hws, gatewayEntry_ok hws', hws', ← hsame.call]
    have hfollows : Follows engine past (entryOf engine g.draws (g.call.inWorkspace ws) w) :=
      entryOf_follows h hfresh.head
    have hfollows' : Follows engine past' (entryOf engine g'.draws (g.call.inWorkspace ws) w') :=
      entryOf_follows h' hfresh'.head
    obtain ⟨houtcome, hrequests⟩ := hfollows.alike hreads hfollows' rfl huuid hpasts
    refine ⟨⟨hsame.call, houtcome, hrequests⟩, ?_⟩
    have hown : ∀ (d : Draws) (w : MemoryWorld V ω τ), inWorkspace g.call.workspaceId
        [entryOf engine d (g.call.inWorkspace ws) w] =
          [entryOf engine d (g.call.inWorkspace ws) w] :=
      fun d w => List.filter_cons_of_pos (decide_eq_true rfl)
    unfold PastsAlike
    rw [inWorkspace, inWorkspace, List.filter_append, List.filter_append, ← inWorkspace,
      ← inWorkspace, ← inWorkspace, ← inWorkspace, hown, hown]
    exact List.rel_append hpasts (.cons ⟨rfl, huuid, houtcome.toOption⟩ .nil)

/-- Histories with the same calls for the workspace, from related pasts. -/
theorem gatewayHistory_alike
    (hreads : ∀ name backend, engine.registry name = some backend → backend.ReadsView)
    (h : Reached past w) (h' : Reached past' w') (hfresh : Fresh past gs)
    (hfresh' : Fresh past' gs') (hpasts : PastsAlike ρ workspaceId past past')
    (hsame : List.Forall₂ (fun g g' => g.SameFor workspaceId g' ∧ ρ g.draws.uuid g'.draws.uuid)
      (stepsFor workspaceId gs) (stepsFor workspaceId gs')) :
    List.Forall₂ (GatewayEntry.Alike ρ)
      (entriesFor workspaceId (gatewayHistory engine gs w))
      (entriesFor workspaceId (gatewayHistory engine gs' w')) := by
  generalize hmine : stepsFor workspaceId gs = mine at hsame
  generalize hmine' : stepsFor workspaceId gs' = mine' at hsame
  induction hsame generalizing past past' w w' gs gs' with
  | nil =>
    have hothers : ∀ gs : List GatewayStep, stepsFor workspaceId gs = [] →
        ∀ g ∈ gs, g.call.workspaceId ≠ workspaceId := by
      intro gs hgs g hg
      simpa only [decide_eq_true_eq] using List.filter_eq_nil_iff.mp hgs g hg
    rw [← List.append_nil gs] at hfresh ⊢
    rw [← List.append_nil gs'] at hfresh' ⊢
    obtain ⟨_, _, -, -, -, hentries⟩ := others_reached engine h hfresh (hothers gs hmine)
    obtain ⟨_, _, -, -, -, hentries'⟩ :=
      others_reached engine h' hfresh' (hothers gs' hmine')
    rw [hentries, hentries']
    exact .nil
  | @cons g g' rest rest' hg _ ih =>
    have hsplit : ∀ (gs : List GatewayStep) (g : GatewayStep) (rest : List GatewayStep),
        stepsFor workspaceId gs = g :: rest → ∃ others after, gs = others ++ g :: after ∧
          (∀ g ∈ others, g.call.workspaceId ≠ workspaceId) ∧ g.call.workspaceId = workspaceId ∧
          stepsFor workspaceId after = rest := by
      intro gs g rest hgs
      obtain ⟨others, after, rfl, hothers, hg, hrest⟩ := List.filter_eq_cons_iff.mp hgs
      refine ⟨others, after, rfl, ?_, by simpa only [decide_eq_true_eq] using hg, hrest⟩
      intro g hg
      simpa only [decide_eq_true_eq] using hothers g hg
    obtain ⟨others, after, rfl, hothers, rfl, hrest⟩ := hsplit gs g rest hmine
    obtain ⟨others', after', rfl, hothers', hown', hrest'⟩ := hsplit gs' g' rest' hmine'
    obtain ⟨p, v, hp, hpfresh, hin, hentries⟩ := others_reached engine h hfresh hothers
    obtain ⟨p', v', hp', hpfresh', hin', hentries'⟩ :=
      others_reached engine h' hfresh' hothers'
    have hrel : PastsAlike ρ g.call.workspaceId p p' := by
      unfold PastsAlike
      rw [hin, hin']
      exact hpasts
    obtain ⟨halike, hnext⟩ := gatewayEntry_alike hreads hp hp' hpfresh hpfresh' hrel hg.1 hg.2
    obtain ⟨hq, hqfresh⟩ := gatewayEntry_reached engine hp hpfresh
    obtain ⟨hq', hqfresh'⟩ := gatewayEntry_reached engine hp' hpfresh'
    have hg₁ : (gatewayEntry engine g v).step.call.workspaceId = g.call.workspaceId := rfl
    have hg₂ : (gatewayEntry engine g' v').step.call.workspaceId = g.call.workspaceId := hown'
    rw [hentries, hentries', gatewayHistory, gatewayHistory, entriesFor_cons_own hg₁,
      entriesFor_cons_own hg₂]
    exact .cons halike (ih hq hq' hqfresh hqfresh' hnext hrest hrest')

end Step

/-! ## The two histories -/

/-- Ids drawn together are paired one to one. -/
theorem drawnTogether_biUnique {gs gs' : List GatewayStep}
    (h : (gs.map (·.draws.uuid)).Nodup) (h' : (gs'.map (·.draws.uuid)).Nodup) :
    Relator.BiUnique (DrawnTogether gs gs') := by
  have hinj : ∀ {ids : List String} {id : String} {i j : Nat}, ids.Nodup → ids[i]? = some id →
      ids[j]? = some id → i = j := by
    intro ids id i j hids hi hj
    obtain ⟨hlt, -⟩ := List.getElem?_eq_some_iff.mp hi
    exact (List.getElem?_inj hlt hids).mp (hi.trans hj.symm)
  have hat : ∀ {id id'}, DrawnTogether gs gs' id id' → ∃ i : Nat,
      (gs.map (·.draws.uuid))[i]? = some id ∧ (gs'.map (·.draws.uuid))[i]? = some id' := by
    intro id id' hmem
    obtain ⟨i, hi⟩ := List.mem_iff_getElem?.mp hmem
    rw [List.getElem?_zip_eq_some] at hi
    exact ⟨i, hi⟩
  constructor
  · intro a b c hac hbc
    obtain ⟨i, hi, hi'⟩ := hat hac
    obtain ⟨j, hj, hj'⟩ := hat hbc
    obtain rfl := hinj h' hi' hj'
    exact Option.some.inj (hi.symm.trans hj)
  · intro a b c hab hac
    obtain ⟨i, hi, hi'⟩ := hat hab
    obtain ⟨j, hj, hj'⟩ := hat hac
    obtain rfl := hinj h hi hj
    exact Option.some.inj (hi'.symm.trans hj')

/-- **Workspaces are isolated.** Over backends that look at no more than the view of their request
and a fresh memory store, two histories of gateway calls, each supplied with fresh ids, have the
same calls for a workspace, each under resolvers that configure this workspace alike. The calls for
it end alike and hand the same requests to backends, call for call, where the ids of its sessions
correspond one to one. -/
theorem workspaces_isolated (engine : Engine V ω τ σ)
    (hreads : ∀ name backend, engine.registry name = some backend → backend.ReadsView)
    (workspaceId : String) (s s' : EngineState V ω τ) (gs gs' : List GatewayStep)
    (hfresh : (gs.map (·.draws.uuid)).Nodup) (hfresh' : (gs'.map (·.draws.uuid)).Nodup)
    (hsame : List.Forall₂ (GatewayStep.SameFor workspaceId) (stepsFor workspaceId gs)
      (stepsFor workspaceId gs')) :
    let ρ := DrawnTogether (stepsFor workspaceId gs) (stepsFor workspaceId gs')
    Relator.BiUnique ρ ∧ List.Forall₂ (GatewayEntry.Alike ρ)
      (entriesFor workspaceId (gatewayHistory engine gs ⟨.empty, s⟩))
      (entriesFor workspaceId (gatewayHistory engine gs' ⟨.empty, s'⟩)) := by
  have hsub : ∀ gs : List GatewayStep, (gs.map (·.draws.uuid)).Nodup →
      ((stepsFor workspaceId gs).map (·.draws.uuid)).Nodup :=
    fun gs h => h.sublist (List.filter_sublist.map _)
  refine ⟨drawnTogether_biUnique (hsub gs hfresh) (hsub gs' hfresh'), ?_⟩
  refine gatewayHistory_alike hreads (reached_nil s) (reached_nil s') hfresh hfresh' .nil ?_
  obtain ⟨hlength, hzip⟩ := List.forall₂_iff_zip.mp hsame
  refine List.forall₂_iff_zip.mpr ⟨hlength, fun hmem => ⟨hzip hmem, ?_⟩⟩
  unfold DrawnTogether
  rw [List.zip_map]
  exact List.mem_map_of_mem (f := Prod.map _ _) hmem

/-- A call for a workspace, of a resolver with a setting of its own. -/
def stepIn (workspaceId uuid : String) (language : String) : GatewayStep where
  resolver :=
    { config := layeredConfigProvider ((∅ : Dict String String).set "LANG" language) ∅
      secrets := fun _ => .ok ∅, root := "/srv/ws" }
  draws := ⟨uuid, .finite 1⟩
  call :=
    { workspaceId, channel := "feishu", externalThreadKey := "t", text := "hi"
      backendName := "echo", messageId := some "m" }

/-- A message delivered twice to one workspace, alone and among calls for another: refused the
second time, on the session of either history. -/
theorem workspaces_isolated_delivered_twice :
    let gs := [stepIn "w" "1" "C", stepIn "w" "2" "C"]
    let gs' := [stepIn "v" "3" "D", stepIn "w" "4" "C", stepIn "v" "5" "D", stepIn "w" "6" "C"]
    let es := entriesFor "w" (gatewayHistory echoEngine gs ⟨.empty, ⟨(), (), []⟩⟩)
    let es' := entriesFor "w" (gatewayHistory echoEngine gs' ⟨.empty, ⟨(), (), []⟩⟩)
    List.Forall₂ (GatewayEntry.Alike (DrawnTogether (stepsFor "w" gs) (stepsFor "w" gs'))) es es' ∧
      es.length = 2 := by
  intro gs gs' es es'
  refine ⟨(workspaces_isolated echoEngine ?_ "w" ⟨(), (), []⟩ ⟨(), (), []⟩ gs gs' (by decide)
    (by decide) ?_).2, by rfl⟩
  · rintro _ _ ⟨⟩ req req' _ _ hview
    have hprompt : req.prompt = req'.prompt := congrArg RequestView.prompt hview
    simp only [echoBackend, hprompt]
  · have hsame : ∀ uuid uuid' language, (stepIn "w" uuid language).SameFor "w"
        (stepIn "w" uuid' language) := fun _ _ _ => ⟨rfl, rfl, rfl, rfl, fun _ => rfl, rfl⟩
    exact .cons (hsame _ _ _) (.cons (hsame _ _ _) .nil)

end ClawEngine.Orchestration
