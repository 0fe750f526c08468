import ClawEngine.Laws.Recording
import ClawEngine.Orchestration.Gateway

/-!
# The round limit of a workspace

A log beside the engine says on which session each completed turn was. On a store that keeps every
save, no session has more completed turns in the log than rounds, nor more rounds than the limit it
was created with. That limit is the workspace's, except that the gateway takes 0 for none.
-/

set_option autoImplicit false

namespace ClawEngine.Orchestration

open ClawEngine.Core ClawEngine.Context ClawEngine.Runtime ClawEngine.Persistence

variable {V σ ε : Type}

/-! ## The completed turns -/

/-- The session that a turn is for, by its metadata. -/
def TurnArgs.sessionId (t : TurnArgs V) : Option String :=
  t.metadata.bind fun metadata => (metadata.get? "session_id").join

/-- A turn, with a log of the sessions whose turns completed. -/
def loggedTurn (turn : TurnFn V ε) : TurnFn V (ε × List String) := fun t s =>
  match turn t s.1 with
  | (.ok r, e) => (.ok r, e, s.2 ++ t.sessionId.toList)
  | (.error x, e) => (.error x, e, s.2)

/-- A turn that raises is not logged. -/
theorem loggedTurn_error {turn : TurnFn V ε} {t : TurnArgs V} {s s' : ε × List String}
    {x : Raised V} (h : loggedTurn turn t s = (.error x, s')) : s'.2 = s.2 := by
  unfold loggedTurn at h
  split at h
  · cases h
  · cases h
    rfl

@[simp] theorem turnArgs_sessionId (c : Call V) (s : Session V) :
    (c.turnArgs s).sessionId = some s.sessionId := by
  simp only [TurnArgs.sessionId, Call.turnArgs, Option.bind_some]
  rw [Dict.get?_set_of_ne _ _ (by decide), Dict.get?_set_of_ne _ _ (by decide),
    Dict.get?_set_self]
  rfl

/-- The log changes nothing. -/
theorem run_loggedTurn {A : Type} (S : SessionStore V σ) (turn : TurnFn V ε)
    (p : Prog (ConvOp V) (ConvAns V) A) (w : World σ ε) (log : List String) :
    ∃ log', p.run (handler S (loggedTurn turn)) ⟨w.store, w.engine, log⟩ =
      ((p.run (handler S turn) w).1,
        ⟨(p.run (handler S turn) w).2.store, (p.run (handler S turn) w).2.engine, log'⟩) := by
  induction p generalizing w log with
  | ret a => exact ⟨log, rfl⟩
  | vis op k ih =>
    cases op with
    | store op => exact ih _ { w with store := (S.perform op w.store).2 } log
    | runTurn t =>
      rcases hturn : turn t w.engine with ⟨answer, e⟩
      have hplain : handler S turn (.runTurn t) w = (answer, ⟨w.store, e⟩) := by
        simp only [handler, hturn]
      obtain ⟨log₁, hlogged⟩ : ∃ log₁, handler S (loggedTurn turn) (.runTurn t)
          ⟨w.store, w.engine, log⟩ = (answer, ⟨w.store, e, log₁⟩) := by
        simp only [handler, loggedTurn, hturn]
        cases answer with
        | ok r => exact ⟨_, rfl⟩
        | error x => exact ⟨_, rfl⟩
      rw [Prog.run_vis, Prog.run_vis, hlogged, hplain]
      exact ih answer ⟨w.store, e⟩ log₁

/-! ## One call -/

section Call

variable {S : LawfulStore V σ} {turn : TurnFn V ε} {w : World σ ε} {d : Draws} {c : Call V}

/-- The lookup puts the session of the call under its key. -/
theorem lookedUp_session (S : LawfulStore V σ) (w : World σ ε) (d : Draws) (c : Call V) (k : Key) :
    (lookedUp S w d c).session k =
      if k = c.key then some (sessionIn S w d c) else (S.view w.store).session k := by
  cases hfound : (S.view w.store).session c.key with
  | some s =>
    simp only [lookedUp, sessionIn, sessionOf, Ledger.perform, Call.createArgs, hfound,
      Option.getD_some]
    split
    next hk => rw [hk, hfound]
    · rfl
  | none =>
    simp only [lookedUp, sessionIn, sessionOf, Ledger.perform, Call.createArgs, hfound,
      Option.getD_none]
    exact Ledger.create_session _ _ _ _

/-- What is left of a call that does not complete a turn: the store with or without the lookup, and
the engine as it was or as a turn left it that raised. -/
structure Incomplete (S : LawfulStore V σ) (turn : TurnFn V ε) (w : World σ ε) (d : Draws)
    (c : Call V) (w' : World σ ε) : Prop where
  store : IsLedger S w'.store (S.view w.store) ∨ IsLedger S w'.store (lookedUp S w d c)
  engine : w'.engine = w.engine ∨ ∃ t x, turn t w.engine = (.error x, w'.engine)

/-- After the duplicate check. -/
theorem handleTurn_completes_or {s : σ} (hs : IsLedger S s (lookedUp S w d c))
    (hcompletes : ∀ r e, turn (c.turnArgs (sessionIn S w d c)) w.engine = (.ok r, e) →
      (sessionIn S w d c).roundCount < (sessionIn S w d c).maxRounds →
        Completes S turn w d c r e) :
    (∃ r e, Completes S turn w d c r e) ∨ Incomplete S turn w d c
      ((handleTurn d c (sessionIn S w d c)).run (handler S.ops turn) { w with store := s }).2 := by
  by_cases hrounds : (sessionIn S w d c).roundCount ≥ (sessionIn S w d c).maxRounds
  · rw [handleTurn_exceeded d c hrounds]
    exact .inr ⟨.inr hs, .inl rfl⟩
  · rcases hturn : turn (c.turnArgs (sessionIn S w d c)) w.engine with ⟨answer, e⟩
    cases answer with
    | ok r => exact .inl ⟨r, e, hcompletes r e hturn (not_le.mp hrounds)⟩
    | error x =>
      have hanswer : handler S.ops turn (.runTurn (c.turnArgs (sessionIn S w d c)))
          { w with store := s } = (.error x, ⟨s, e⟩) := by
        simp only [handler, hturn]
      rw [handleTurn_runs d c hrounds, Prog.run_call_error (R := ConvOp.Res) hanswer]
      exact .inr ⟨.inr hs, .inr ⟨_, x, hturn⟩⟩

/-- **A call completes its turn, or leaves no more than a lookup.** -/
theorem runHandle_completes_or (turn : TurnFn V ε) (c : Call V) (h : S.Inv w.store)
    (hfresh : ¬ (S.view w.store).Knows d.uuid) :
    (∃ r e, Completes S turn w d c r e) ∨
      Incomplete S turn w d c (runHandle S.ops turn d c w).2 := by
  by_cases hlooks : S.Accepts (S.view w.store) (.getOrCreate d.uuid c.createArgs)
  swap
  · have hallows : (S.view w.store).Allows (.getOrCreate d.uuid c.createArgs) := hfresh
    obtain ⟨⟨x, hx⟩, hsame⟩ := S.refused h hallows hlooks
    rw [runHandle, handle, Prog.run_call_error (R := ConvOp.Res)
      (handler_of_error (.getOrCreate d.uuid c.createArgs) hx), hsame]
    exact .inr ⟨.inl ⟨h, rfl⟩, .inl rfl⟩
  obtain ⟨s₁, hlook, hinv₁, hview₁⟩ :=
    handler_accepted turn (.getOrCreate d.uuid c.createArgs) h hfresh hlooks
  have hs₁ : IsLedger S s₁ (lookedUp S w d c) := ⟨hinv₁, hview₁⟩
  rw [perform_getOrCreate] at hlook
  rw [runHandle, handle, Prog.run_call_ok (R := ConvOp.Res) hlook]
  cases hmid : c.messageId with
  | none =>
    rw [handleCheck_none d hmid]
    refine handleTurn_completes_or hs₁ fun r e hturn hround =>
      ⟨h, hfresh, hlooks, fun mid hmid' => ?_, ?_, hround, hturn⟩
    · rw [hmid] at hmid'
      cases hmid'
    · rw [isDuplicate, hmid]
      rfl
  | some mid =>
    rw [handleCheck_some d hmid]
    have hknown : (S.view s₁).Knows (sessionIn S w d c).sessionId := by
      rw [hs₁.2]
      exact ⟨c.key, _, (session_sessionOf (S.wf h) S.clock d c).1, rfl⟩
    by_cases hchecks : S.Accepts (lookedUp S w d c)
        (.isProcessed (sessionIn S w d c).sessionId mid)
    swap
    · rw [← hs₁.2] at hchecks
      have hallows : (S.view s₁).Allows (.isProcessed (sessionIn S w d c).sessionId mid) := hknown
      obtain ⟨⟨x, hx⟩, hsame⟩ := S.refused hinv₁ hallows hchecks
      have hrefused : handler S.ops turn (.store (.isProcessed (sessionIn S w d c).sessionId mid))
          { w with store := s₁ } = (.error (.store x), _) := handler_of_error _ hx
      rw [hsame] at hrefused
      rw [show (sessionOf (S.view w.store) d c) = sessionIn S w d c from rfl,
        Prog.run_call_error (R := ConvOp.Res) hrefused]
      exact .inr ⟨.inr hs₁, .inl rfl⟩
    obtain ⟨s₂, hcheck, hinv₂, hview₂⟩ := handler_accepted turn (w := { w with store := s₁ })
      (.isProcessed (sessionIn S w d c).sessionId mid) hinv₁ hknown (by rw [hs₁.2]; exact hchecks)
    have hs₂ : IsLedger S s₂ (lookedUp S w d c) := ⟨hinv₂, hview₂.trans hs₁.2⟩
    rw [show (sessionOf (S.view w.store) d c) = sessionIn S w d c from rfl,
      Prog.run_call_ok (R := ConvOp.Res) hcheck]
    simp only [Ledger.perform, hs₁.2]
    cases hdup : (lookedUp S w d c).processed (sessionIn S w d c).sessionId mid with
    | true => exact .inr ⟨.inr hs₂, .inl rfl⟩
    | false =>
      rw [if_neg Bool.false_ne_true]
      refine handleTurn_completes_or hs₂ fun r e hturn hround =>
        ⟨h, hfresh, hlooks, fun mid' hmid' => ?_, ?_, hround, hturn⟩
      · rw [hmid] at hmid'
        cases hmid'
        exact hchecks
      · rw [isDuplicate, hmid]
        exact hdup

end Call

/-! ## Runs of the gateway -/

/-- The limit that the gateway takes from a workspace. -/
def appliedLimit (resolver : WorkspaceResolver) (workspaceId : String) : Int :=
  match ((resolver.specs.get? workspaceId).getD {}).maxRounds with
  | none => defaultMaxRounds
  | some n => if n = 0 then defaultMaxRounds else n

/-- A limit that is not 0 is applied as it is. -/
theorem appliedLimit_of_ne_zero {resolver : WorkspaceResolver} {workspaceId : String}
    {spec : WorkspaceSpec} {n : Int} (hspec : resolver.specs.get? workspaceId = some spec)
    (hmax : spec.maxRounds = some n) (hn : n ≠ 0) : appliedLimit resolver workspaceId = n := by
  simp only [appliedLimit, hspec, Option.getD_some, hmax, if_neg hn]

theorem inWorkspace_maxRounds {resolver : WorkspaceResolver} {g : GatewayCall}
    {ws : ResolvedWorkspace} (h : resolver.resolve g.workspaceId g.userId = .ok ws) :
    (g.inWorkspace ws : Call V).maxRounds = appliedLimit resolver g.workspaceId := by
  unfold WorkspaceResolver.resolve at h
  obtain ⟨_, -, h⟩ := except_bind_eq_ok.mp h
  obtain ⟨baseEnv, -, h⟩ := except_bind_eq_ok.mp h
  obtain ⟨userEnv, -, h⟩ := except_bind_eq_ok.mp h
  obtain ⟨secretEnv, -, h⟩ := except_bind_eq_ok.mp h
  cases h
  rfl

/-- The sessions of a workspace have its limit, and no more completed turns than rounds. -/
structure Limited (S : LawfulStore V σ) (workspaceId : String) (limit : Int)
    (w : World σ (ε × List String)) : Prop where
  inv : S.Inv w.store
  sessions : ∀ k s, (S.view w.store).session k = some s → k.workspaceId = workspaceId →
    s.maxRounds = limit ∧ (w.engine.2.count s.sessionId : Int) ≤ s.roundCount ∧
      s.roundCount ≤ max 0 limit
  known : ∀ sid ∈ w.engine.2, (S.view w.store).Knows sid

section Runs

variable {S : LawfulStore V σ} {turn : TurnFn V ε} {w : World σ (ε × List String)} {d : Draws}
  {c : Call V} {workspaceId : String} {limit : Int}

/-- The session of a call keeps to the limit. -/
theorem Limited.sessionIn (h : Limited S workspaceId limit w)
    (hfresh : ¬ (S.view w.store).Knows d.uuid)
    (hlimit : c.workspaceId = workspaceId → c.maxRounds = limit)
    (hworkspace : c.workspaceId = workspaceId) :
    (sessionIn S w d c).maxRounds = limit ∧
      (w.engine.2.count (sessionIn S w d c).sessionId : Int) ≤ (sessionIn S w d c).roundCount ∧
        (sessionIn S w d c).roundCount ≤ max 0 limit := by
  unfold Orchestration.sessionIn sessionOf
  cases hfound : (S.view w.store).session c.key with
  | some s => exact h.sessions c.key s hfound hworkspace
  | none =>
    have hunlogged : w.engine.2.count d.uuid = 0 :=
      List.count_eq_zero.mpr fun hmem => hfresh (h.known _ hmem)
    refine ⟨hlimit hworkspace, ?_, le_max_left _ _⟩
    show (w.engine.2.count d.uuid : Int) ≤ 0
    rw [hunlogged]
    rfl

/-- The lookup of a call adds no turn. -/
theorem Limited.lookup (h : Limited S workspaceId limit w)
    (hfresh : ¬ (S.view w.store).Knows d.uuid)
    (hlimit : c.workspaceId = workspaceId → c.maxRounds = limit)
    {w' : World σ (ε × List String)} (hstore : IsLedger S w'.store (lookedUp S w d c))
    (hlog : w'.engine.2 = w.engine.2) : Limited S workspaceId limit w' where
  inv := hstore.1
  sessions k s hs hk := by
    rw [hstore.2, lookedUp_session] at hs
    rw [hlog]
    split at hs
    next hkey =>
      cases hs
      subst hkey
      exact h.sessionIn hfresh hlimit hk
    · exact h.sessions k s hs hk
  known sid hsid := by
    rw [hlog] at hsid
    rw [hstore.2]
    exact (h.known sid hsid).perform _

/-- A completed turn that was saved adds a round to its session, and a turn. -/
theorem Limited.saved (h : Limited S workspaceId limit w)
    (hlimit : c.workspaceId = workspaceId → c.maxRounds = limit) {r : AgentRunResult V}
    {e : ε × List String} (hcompletes : Completes S (loggedTurn turn) w d c r e)
    (haccepts : S.Accepts (lookedUp S w d c) (.save (turnedSession S w d c r))) :
    Limited S workspaceId limit (runHandle S.ops (loggedTurn turn) d c w).2 := by
  obtain ⟨-, ⟨hinv, hview⟩, hengine⟩ := runHandle_saved hcompletes haccepts
  obtain ⟨hsessions, -⟩ := recorded_found hcompletes
  have hlog : e.2 = w.engine.2 ++ [(Orchestration.sessionIn S w d c).sessionId] := by
    have hturn := hcompletes.turn
    unfold loggedTurn at hturn
    rw [turnArgs_sessionId] at hturn
    split at hturn
    · cases hturn
      rfl
    · cases hturn
  obtain ⟨hfound, hkey⟩ := sessionIn_found hcompletes
  have hwf : (lookedUp S w d c).WF := (S.wf h.inv).perform hcompletes.fresh
  refine ⟨hinv, fun k s hs hk => ?_, fun sid hsid => ?_⟩
  · rw [hview, hsessions] at hs
    rw [hengine, hlog, List.count_append]
    split at hs
    next hown =>
      cases hs
      subst hown
      obtain ⟨hmax, hcount, -⟩ := h.sessionIn hcompletes.fresh hlimit hk
      have hround := hcompletes.round
      refine ⟨hmax, ?_, ?_⟩
      · show ((w.engine.2.count (Orchestration.sessionIn S w d c).sessionId +
          List.count (Orchestration.sessionIn S w d c).sessionId
            [(Orchestration.sessionIn S w d c).sessionId] : Nat) : Int) ≤
          (Orchestration.sessionIn S w d c).roundCount + 1
        rw [List.count_singleton_self, Nat.cast_add, Nat.cast_one]
        omega
      · show (Orchestration.sessionIn S w d c).roundCount + 1 ≤ max 0 limit
        rw [hmax] at hround
        omega
    next hother =>
      have hne : (Orchestration.sessionIn S w d c).sessionId ≠ s.sessionId :=
        fun heq => hother (hwf.id_inj hfound hs heq).symm
      rw [List.count_singleton, if_neg (by simpa only [beq_iff_eq] using hne), Nat.add_zero]
      rw [lookedUp_session, if_neg hother] at hs
      exact h.sessions k s hs hk
  · have hknown : (lookedUp S w d c).Knows sid := by
      rw [hengine, hlog] at hsid
      rcases List.mem_append.mp hsid with hsid | hsid
      · exact (h.known sid hsid).perform _
      · cases List.mem_singleton.mp hsid
        exact ⟨c.key, _, hfound, rfl⟩
    obtain ⟨k, s, hs, rfl⟩ := hknown
    rw [hview]
    by_cases hown : k = c.key
    · subst hown
      rw [hfound] at hs
      cases hs
      exact ⟨c.key, _, (hsessions c.key).trans (if_pos rfl), rfl⟩
    · exact ⟨k, s, ((hsessions k).trans (if_neg hown)).trans hs, rfl⟩

/-- The store keeps the save of the turn, if the call completes one. -/
def KeepsSave (S : LawfulStore V σ) (turn : TurnFn V ε) (d : Draws) (c : Call V) (w : World σ ε) :
    Prop :=
  ∀ r e, Completes S turn w d c r e → S.Accepts (lookedUp S w d c) (.save (turnedSession S w d c r))

/-- **A call keeps the limit.** -/
theorem Limited.handle (h : Limited S workspaceId limit w)
    (hfresh : ¬ (S.view w.store).Knows d.uuid)
    (hlimit : c.workspaceId = workspaceId → c.maxRounds = limit)
    (hsave : KeepsSave S (loggedTurn turn) d c w) :
    Limited S workspaceId limit (runHandle S.ops (loggedTurn turn) d c w).2 := by
  rcases runHandle_completes_or (loggedTurn turn) c h.inv hfresh with ⟨r, e, hcompletes⟩ |
    ⟨hstore, hengine⟩
  · exact h.saved hlimit hcompletes (hsave r e hcompletes)
  · have hlog : (runHandle S.ops (loggedTurn turn) d c w).2.engine.2 = w.engine.2 := by
      rcases hengine with hsame | ⟨t, x, hturn⟩
      · rw [hsame]
      · exact loggedTurn_error hturn
    rcases hstore with hstore | hstore
    · refine ⟨hstore.1, fun k s hs hk => ?_, fun sid hsid => ?_⟩
      · rw [hstore.2] at hs
        rw [hlog]
        exact h.sessions k s hs hk
      · rw [hlog] at hsid
        rw [hstore.2]
        exact h.known sid hsid
    · exact h.lookup hfresh hlimit hstore hlog

/-- The only id that a call makes known is the one it draws. -/
theorem runHandle_knows (hinv : S.Inv w.store) (hfresh : ¬ (S.view w.store).Knows d.uuid)
    (hsave : KeepsSave S (loggedTurn turn) d c w) {sid : String}
    (h : (S.view (runHandle S.ops (loggedTurn turn) d c w).2.store).Knows sid) :
    (S.view w.store).Knows sid ∨ sid = d.uuid := by
  have hlookup (hknown : (lookedUp S w d c).Knows sid) :
      (S.view w.store).Knows sid ∨ sid = d.uuid := by
    rcases Ledger.knows_perform hknown with hknown | ⟨a, ha⟩
    · exact .inl hknown
    · cases ha
      exact .inr rfl
  rcases runHandle_completes_or (loggedTurn turn) c hinv hfresh with ⟨r, e, hcompletes⟩ |
    ⟨hstore | hstore, -⟩
  · obtain ⟨-, ⟨-, hview⟩, -⟩ := runHandle_saved hcompletes (hsave r e hcompletes)
    obtain ⟨hsessions, -⟩ := recorded_found hcompletes
    obtain ⟨k, s, hs, rfl⟩ := h
    rw [hview, hsessions] at hs
    refine hlookup ?_
    split at hs
    · cases hs
      exact ⟨c.key, _, (sessionIn_found hcompletes).1, rfl⟩
    · exact ⟨k, s, hs, rfl⟩
  · rw [hstore.2] at h
    exact .inl h
  · rw [hstore.2] at h
    exact hlookup h

/-- The store keeps the save of every turn that is completed in the run. -/
def SavesKept (S : LawfulStore V σ) (turn : TurnFn V ε) (resolver : WorkspaceResolver) :
    List (Draws × GatewayCall) → World σ ε → Prop
  | [], _ => True
  | (d, g) :: calls, w =>
    (∀ ws, resolver.resolve g.workspaceId g.userId = .ok ws →
      KeepsSave S turn d (g.inWorkspace ws) w) ∧
    SavesKept S turn resolver calls ((gatewayHandle resolver d g).run (handler S.ops turn) w).2

/-- **Every run of the gateway keeps the limit.** -/
theorem Limited.runGateway {resolver : WorkspaceResolver} {calls : List (Draws × GatewayCall)}
    (h : Limited S workspaceId (appliedLimit resolver workspaceId) w)
    (hfresh : ∀ call ∈ calls, ¬ (S.view w.store).Knows call.1.uuid)
    (hdistinct : (calls.map (·.1.uuid)).Nodup)
    (hsaves : SavesKept S (loggedTurn turn) resolver calls w) :
    Limited S workspaceId (appliedLimit resolver workspaceId)
      (Orchestration.runGateway resolver S.ops (loggedTurn turn) calls w).2 := by
  induction calls generalizing w with
  | nil => exact h
  | cons call calls ih =>
    obtain ⟨d, g⟩ := call
    obtain ⟨hkept, hrest⟩ := hsaves
    obtain ⟨hnotin, hdistinct'⟩ := List.nodup_cons.mp hdistinct
    have hhead := hfresh (d, g) List.mem_cons_self
    have hstep : Limited S workspaceId (appliedLimit resolver workspaceId)
        ((gatewayHandle resolver d g).run (handler S.ops (loggedTurn turn)) w).2 ∧
        ∀ call ∈ calls, ¬ (S.view ((gatewayHandle resolver d g).run
          (handler S.ops (loggedTurn turn)) w).2.store).Knows call.1.uuid := by
      unfold gatewayHandle
      cases hws : resolver.resolve g.workspaceId g.userId with
      | error e => exact ⟨h, fun call hcall => hfresh call (List.mem_cons_of_mem _ hcall)⟩
      | ok ws =>
        refine ⟨h.handle hhead (fun hworkspace => ?_) (hkept ws hws), fun call hcall hknown => ?_⟩
        · rw [inWorkspace_maxRounds hws, ← hworkspace]
          rfl
        · rcases runHandle_knows h.inv hhead (hkept ws hws) hknown with hknown | huuid
          · exact hfresh call (List.mem_cons_of_mem _ hcall) hknown
          · exact hnotin (List.mem_map.mpr ⟨call, hcall, huuid⟩)
    exact ih hstep.1 hstep.2 hdistinct' hrest

end Runs

/-! ## The limit that is honoured -/

/-- **A round limit other than 0 is honoured.** For every lawful store, every turn, every resolver
with a spec of `max_rounds = n`, and every sequence of gateway calls that begins when the workspace
has no session, with ids drawn anew and every save of a completed turn kept: no session of the
workspace has more than `max n 0` completed turns. -/
theorem round_limit_honoured (S : LawfulStore V σ) (turn : TurnFn V ε)
    (resolver : WorkspaceResolver) {workspaceId : String} {spec : WorkspaceSpec} {n : Int}
    (hspec : resolver.specs.get? workspaceId = some spec) (hmax : spec.maxRounds = some n)
    (hn : n ≠ 0) (store : σ) (e : ε) (hinv : S.Inv store)
    (hstart : ∀ k s, (S.view store).session k = some s → k.workspaceId ≠ workspaceId)
    (calls : List (Draws × GatewayCall)) (hdistinct : (calls.map (·.1.uuid)).Nodup)
    (hfresh : ∀ call ∈ calls, ¬ (S.view store).Knows call.1.uuid)
    (hsaves : SavesKept S (loggedTurn turn) resolver calls ⟨store, e, []⟩) :
    let left := (runGateway resolver S.ops (loggedTurn turn) calls ⟨store, e, []⟩).2
    ∀ k s, (S.view left.store).session k = some s → k.workspaceId = workspaceId →
      (left.engine.2.count s.sessionId : Int) ≤ max n 0 := by
  intro left k s hs hk
  have hlimited : Limited S workspaceId (appliedLimit resolver workspaceId) ⟨store, e, []⟩ :=
    ⟨hinv, fun k s hs hk => absurd hk (hstart k s hs), nofun⟩
  obtain ⟨-, hcount, hround⟩ := (hlimited.runGateway hfresh hdistinct hsaves).sessions k s hs hk
  rw [appliedLimit_of_ne_zero hspec hmax hn] at hround
  rw [max_comm]
  exact hcount.trans hround

/-- A resolver that limits the rounds of `w`. -/
def limitedTo (n : Int) : WorkspaceResolver :=
  { config := fun _ => .ok ∅, secrets := fun _ => .ok ∅, root := "/w"
    specs := Dict.set ∅ "w" { maxRounds := some n } }

/-- Messages in one thread of `w`. -/
def oneThread (messages : List String) : List (Draws × GatewayCall) :=
  messages.map fun m =>
    (⟨m, .finite 0⟩, { workspaceId := "w", channel := "c", externalThreadKey := "t"
                       text := m, backendName := "codex" })

def doneTurn : TurnFn String Unit := fun _ e =>
  (.ok { backendThreadId := some "t", finalText := "done", usage := {} }, e)

/-- Of three messages in a workspace with two rounds, at most two turns complete. -/
theorem round_limit_honoured_two :
    let left := (runGateway (limitedTo 2) (memoryLawful String).ops (loggedTurn doneTurn)
      (oneThread ["a", "b", "c"]) ⟨MemoryStore.empty, (), []⟩).2
    ∀ k s, ((memoryLawful String).view left.store).session k = some s → k.workspaceId = "w" →
      (left.engine.2.count s.sessionId : Int) ≤ max 2 0 :=
  round_limit_honoured (memoryLawful String) doneTurn (limitedTo 2) rfl rfl (by decide) _ _
    MemoryStore.Inv.empty nofun (oneThread ["a", "b", "c"]) (by decide)
    (fun _ _ => by rintro ⟨k, s, hs, -⟩; cases hs)
    ⟨fun _ _ _ _ _ => trivial, fun _ _ _ _ _ => trivial, fun _ _ _ _ _ => trivial, trivial⟩

/-- A workspace limited to 0 rounds runs a turn. -/
theorem zero_limit_runs :
    let left := (runGateway (limitedTo 0) (memoryLawful String).ops (loggedTurn doneTurn)
      (oneThread ["a"]) ⟨MemoryStore.empty, (), []⟩).2
    (((memoryLawful String).view left.store).session ⟨"w", "c", "t"⟩).map (·.sessionId) =
      some "a" ∧ ¬ (left.engine.2.count "a" : Int) ≤ max 0 0 := by
  refine ⟨rfl, ?_⟩
  decide

end ClawEngine.Orchestration
