import ClawEngine.Core.Part
import ClawEngine.Laws.Isolation
import ClawEngine.Laws.Rounds
import ClawEngine.Persistence.Keys

/-!
# Conversations in parallel

Calls of `handle` on any number of conversations, over one store and one engine, interleaved one
operation at a time. A call asks the store about the session of its own key only, and a turn is
answered by what is asked of it; so the calls of one conversation run as though there were no other:
they end as they would, ask the same, and leave the same session with the same messages processed.
-/

set_option autoImplicit false

namespace ClawEngine.Orchestration

open ClawEngine.Core ClawEngine.Runtime ClawEngine.Persistence

variable {V σ ε ω τ ρ ι : Type} [DecidableEq ι]

/-- The calls on a key. -/
abbrev CallsOn (c : ι → Call V) (k : Key) : Type := {i // (c i).key = k}

/-- The calls on a key, as part of all. -/
def onKey (c : ι → Call V) (k : Key) (i : ι) : Option (CallsOn c k) :=
  if h : (c i).key = k then some ⟨i, h⟩ else none

omit [DecidableEq ι] in
theorem onKey_eq_some {c : ι → Call V} {k : Key} {i : ι} {t : CallsOn c k} :
    onKey c k i = some t ↔ i = t := by
  unfold onKey
  constructor
  · intro h
    split at h
    · cases h
      rfl
    · cases h
  · rintro rfl
    rw [dif_pos t.2]

omit [DecidableEq ι] in
theorem onKey_eq_none {c : ι → Call V} {k : Key} {i : ι} : onKey c k i = none ↔ (c i).key ≠ k := by
  unfold onKey
  split
  next h => exact ⟨nofun, fun hne => absurd h hne⟩
  next h => exact ⟨fun _ => h, fun _ => rfl⟩

section Steps

variable {S : LawfulStore V σ} {turn : TurnFn V ε} {w : World σ ε} {d : ι → Draws}
  {c : ι → Call V} {i : ι}
  {p : Pool ι (ConvOp V) (ConvAns V) (Except (Raised V) (AgentRunResult V)) (World σ ε)}

omit [DecidableEq ι] in
/-- The calls on a key may start where all may. -/
theorem Start.onKey (h : Start S w d) (c : ι → Call V) (k : Key) :
    Start S w fun i : CallsOn c k => d i :=
  ⟨h.inv, fun _ _ heq => Subtype.ext (h.ids heq), fun i => h.fresh i⟩

/-- What a call is about to ask of the store is within its contract, and on the call's key. -/
theorem reached_allows (hstart : Start S w d)
    (hp : Pool.Reached (handler S.ops turn) w (fun i => handle (d i) (c i)) p) {op : StoreOp V}
    {k : ConvAns V (.store op) → ConvProg V} (hi : p.threads i = .vis (.store op) k) :
    S.Inv p.shared.store ∧ (S.view p.shared.store).Allows op ∧
      (S.view p.shared.store).OnKey (c i).key op := by
  obtain ⟨hshared, -, hlog⟩ := hp.history
  obtain ⟨-, -, hnext⟩ := (hp.perform hi).history
  rw [Pool.perform_log] at hnext
  have hsound : Sound S turn w d c p.log := ConvHistory.sound hstart hlog
  have hledger : ledgerAt S turn w p.log = S.view p.shared.store := by rw [ledgerAt, ← hshared]
  rw [← hledger]
  refine ⟨by rw [hshared]; exact hsound.inv, hsound.allows hstart hnext, ?_⟩
  have hasks : Asks (d i) (c i) (Pool.own i p.log) (.store op) := ConvHistory.asks hnext
  have hfound : ∀ s, didLookup (d i) (c i) (.ok s) ∈ Pool.own i p.log → s.key = (c i).key ∧
      ∃ x, (ledgerAt S turn w p.log).session (c i).key = some x ∧ x.sessionId = s.sessionId := by
    intro s hs
    have hkey := ConvHistory.lookup_key hstart hlog (Pool.mem_own.mp hs)
    obtain ⟨x, hx, hid, -⟩ := hsound.found hs
    exact ⟨hkey, x, hkey ▸ hx, hid⟩
  generalize hop : ConvOp.store op = o at hasks
  cases hasks with
  | lookup hnil =>
    cases hop
    rfl
  | check hs =>
    cases hop
    exact (hfound _ hs).2
  | save hs =>
    cases hop
    exact (hfound _ hs).1
  | mark hs =>
    cases hop
    exact (hfound _ hs).2
  | turn => cases hop

variable {k : Key} {s s' : σ} {op : StoreOp V}

/-- **An operation on a key**, asked of two states that agree on it. -/
theorem perform_agrees (hkeys : S.KeepsToKeys)
    (h : Ledger.AgreeOn k (S.view s) (S.view s')) (hs : S.Inv s) (hs' : S.Inv s')
    (hop : (S.view s).Allows op) (hop' : (S.view s').Allows op) (hkey : (S.view s).OnKey k op) :
    (S.ops.perform op s).1 = (S.ops.perform op s').1 ∧
      Ledger.AgreeOn k (S.view (S.ops.perform op s).2) (S.view (S.ops.perform op s').2) := by
  have haccepts : S.Accepts (S.view s) op ↔ S.Accepts (S.view s') op := by
    refine hkeys.accepts ?_
    rintro uuid a rfl
    obtain rfl : a.key = k := hkey
    exact h.session
  by_cases ha : S.Accepts (S.view s) op
  · obtain ⟨hans, -, hview⟩ := S.accepted hs hop ha
    obtain ⟨hans', -, hview'⟩ := S.accepted hs' hop' (haccepts.mp ha)
    obtain ⟨hsame, hagree⟩ := h.perform S.clock (S.wf hs) (S.wf hs') hop hop' hkey
    rw [hans, hans', hview, hview', hsame]
    exact ⟨rfl, hagree⟩
  · have ha' := haccepts.not.mp ha
    obtain ⟨e, he⟩ := hkeys.refusal op
    rw [he s hs hop ha, he s' hs' hop' ha', (S.refused hs hop ha).2, (S.refused hs' hop' ha').2]
    exact ⟨rfl, h⟩

/-- **An operation on another key.** -/
theorem perform_frame {k' : Key} {L : Ledger V} (h : Ledger.AgreeOn k (S.view s) L) (hs : S.Inv s)
    (hop : (S.view s).Allows op) (hkey : (S.view s).OnKey k' op) (hne : k' ≠ k) :
    Ledger.AgreeOn k (S.view (S.ops.perform op s).2) L := by
  rcases S.perform_cases hs hop with ⟨-, hview⟩ | ⟨-, hview⟩
  · rw [hview]
    exact h.frame (S.wf hs) hop hkey hne
  · rw [hview]
    exact h

end Steps

section Runs

variable {S : LawfulStore V σ} {engine : Engine V ω τ ρ} {w : World σ (EngineState V ω τ)}
  {d : ι → Draws} {c : ι → Call V}

/-- **The calls on a key keep to themselves.** -/
theorem onKey_onItsOwn (hkeys : S.KeepsToKeys)
    (hreads : ∀ name backend, engine.registry name = some backend → backend.ReadsView)
    (hstart : Start S w d) (k : Key) :
    Pool.OnItsOwn (handler S.ops (engineTurn engine)) w (fun i => handle (d i) (c i)) w
      (fun i : CallsOn c k => handle (d i) (c i)) (onKey c k)
      fun w w' => Ledger.AgreeOn k (S.view w.store) (S.view w'.store) where
  inj h h' := (onKey_eq_some.mp h).trans (onKey_eq_some.mp h').symm
  begins h := by rw [onKey_eq_some.mp h]
  start := .refl k _
  mine {p q i t op _} hp hq hsame hi hop hop' := by
    obtain rfl := onKey_eq_some.mp hi
    cases op with
    | store op =>
      obtain ⟨hinv, hallows, hkey⟩ := reached_allows hstart hp hop
      obtain ⟨hinv', hallows', -⟩ := reached_allows (hstart.onKey c k) hq hop'
      rw [t.2] at hkey
      obtain ⟨hans, hagree⟩ := perform_agrees hkeys hsame hinv hinv' hallows hallows' hkey
      exact ⟨congrArg liftStore hans, hagree⟩
    | runTurn args =>
      exact ⟨TurnArgs.Alike.answer hreads ⟨rfl, rfl, rfl, rfl, rfl, rfl⟩ _ _, hsame⟩
  others {p i op _ _} hp hsame hi hop := by
    cases op with
    | store op =>
      obtain ⟨hinv, hallows, hkey⟩ := reached_allows hstart hp hop
      exact perform_frame hsame hinv hallows hkey (onKey_eq_none.mp hi)
    | runTurn args => exact hsame

/-- **Conversations in parallel.** In every interleaving of calls on any conversations, over a
lawful store that keeps to keys, the calls on one key end as they do where only they are made, in
the same order of steps; they ask the store and the engine the same and are answered the same; and
what the store has under the key is the same. -/
theorem conversations_in_parallel (S : LawfulStore V σ) (hkeys : S.KeepsToKeys)
    (engine : Engine V ω τ ρ)
    (hreads : ∀ name backend, engine.registry name = some backend → backend.ReadsView)
    (w : World σ (EngineState V ω τ)) (d : ι → Draws) (c : ι → Call V) (hstart : Start S w d)
    (k : Key) (schedule : List ι) :
    let p := (Pool.start w fun i => handle (d i) (c i)).run
      (handler S.ops (engineTurn engine)) schedule
    let q := (Pool.start w fun i : CallsOn c k => handle (d i) (c i)).run
      (handler S.ops (engineTurn engine)) (schedule.filterMap (onKey c k))
    (∀ (i : CallsOn c k) out, p.Finished i out ↔ q.Finished i out) ∧
      Pool.partLog (onKey c k) p.log = q.log ∧
      Ledger.AgreeOn k (S.view p.shared.store) (S.view q.shared.store) := by
  intro p q
  have hprojects := (onKey_onItsOwn (c := c) hkeys hreads hstart k).run schedule
  refine ⟨fun i out => ?_, hprojects.log, hprojects.same⟩
  rw [Pool.Finished, Pool.Finished, hprojects.threads (onKey_eq_some.mpr rfl)]

end Runs

/-! ## Two conversations in lockstep -/

/-- Deliveries to two threads of a channel. -/
def toThread (i : Bool) : Call String :=
  { delivery "m1" with externalThreadKey := if i then "t" else "u" }

/-- A conversation beside which another is handled has its one round. -/
theorem conversations_in_parallel_lockstep :
    let p := (Pool.start freshWorld fun i => handle (twoDraws i) (toThread i)).run
      (handler (memoryLawful String).ops (engineTurn echoEngine))
      [true, false, true, false, true, false, true, false, true, false]
    ((p.shared.store.ledger.session deliveryKey).map (·.roundCount)) = some 1 := by
  intro p
  obtain ⟨-, -, hagree⟩ := conversations_in_parallel (memoryLawful String)
    (memory_keepsToKeys String) echoEngine (by
      rintro _ _ ⟨⟩ req req' _ _ hview
      have hprompt : req.prompt = req'.prompt := congrArg RequestView.prompt hview
      simp only [echoBackend, hprompt]) freshWorld twoDraws toThread twoDraws_start deliveryKey
    [true, false, true, false, true, false, true, false, true, false]
  exact (congrArg (Option.map (·.roundCount)) hagree.session).trans rfl

end ClawEngine.Orchestration
