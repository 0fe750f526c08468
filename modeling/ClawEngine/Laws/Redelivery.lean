import ClawEngine.Laws.AtomicStore
import ClawEngine.Laws.Delivery
import ClawEngine.Laws.Rounds

/-!
# A message that was answered, delivered again

A call that returned has marked its message, so a call on the same conversation that starts later
with the same message is stopped by its duplicate check, whatever other calls do meanwhile. That is
so where the operations of the store are atomic, and therefore where the calls are interleaved one
transaction at a time.
-/

set_option autoImplicit false

namespace ClawEngine.Orchestration

open ClawEngine.Core ClawEngine.Runtime ClawEngine.Persistence
open ClawEngine.Persistence.SqlAlchemyStore

variable {V σ ε ι : Type} [DecidableEq ι]

/-! ## Schedules that leave a program out -/

section Left

variable {Op : Type} {Ans : Op → Type} {A σ : Type}

/-- A program that is not in the schedule performs nothing. -/
theorem own_of_notMem {i : ι} (H : Handler Op Ans σ) (p : Pool ι Op Ans A σ) {l : List ι}
    (hi : i ∉ l) : Pool.own i (p.run H l).log = Pool.own i p.log := by
  induction l generalizing p with
  | nil => rfl
  | cons j l ih =>
    rw [List.mem_cons, not_or] at hi
    obtain ⟨hij, hl⟩ := hi
    rw [Pool.run_cons, ih _ hl]
    cases hop : p.threads j with
    | ret a => rw [Pool.step_of_ret hop]
    | vis op k =>
      rw [Pool.step_of_vis hop, Pool.perform_log, Pool.own_append, Pool.own_of_ne (Ne.symm hij),
        Pool.own_nil, List.append_nil]

theorem threads_of_notMem {i : ι} (H : Handler Op Ans σ) (p : Pool ι Op Ans A σ) {l : List ι}
    (hi : i ∉ l) : (p.run H l).threads i = p.threads i := by
  induction l generalizing p with
  | nil => rfl
  | cons j l ih =>
    rw [List.mem_cons, not_or] at hi
    obtain ⟨hij, hl⟩ := hi
    rw [Pool.run_cons, ih _ hl, Pool.step_threads_of_ne hij]

/-- A program that has its outcome keeps it. -/
theorem finished_run {i : ι} {a : A} {H : Handler Op Ans σ} {p : Pool ι Op Ans A σ}
    (h : p.Finished i a) (l : List ι) : (p.run H l).Finished i a := by
  induction l generalizing p with
  | nil => exact h
  | cons j l ih =>
    refine ih ?_
    by_cases hij : i = j
    · subst hij
      rw [Pool.step_of_ret h]
      exact h
    · rw [Pool.Finished, Pool.step_threads_of_ne hij]
      exact h

end Left

section Orders

variable {order : List ι → List ι}
  (hsnoc : ∀ l i, ∃ n, order (l ++ [i]) = order l ++ List.replicate n i)

include hsnoc

omit [DecidableEq ι] in
theorem order_append (l₁ l₂ : List ι) : ∃ m, order (l₁ ++ l₂) = order l₁ ++ m := by
  induction l₂ using List.reverseRecOn with
  | nil => exact ⟨[], by rw [List.append_nil, List.append_nil]⟩
  | append_singleton l i ih =>
    obtain ⟨m, hm⟩ := ih
    obtain ⟨n, hn⟩ := hsnoc (l₁ ++ l) i
    exact ⟨m ++ List.replicate n i, by rw [← List.append_assoc, hn, hm, List.append_assoc]⟩

omit [DecidableEq ι] in
/-- Who is in the order was scheduled. -/
theorem mem_of_mem_order (hnil : order [] = []) {l : List ι} {i : ι} (hi : i ∈ order l) :
    i ∈ l := by
  induction l using List.reverseRecOn with
  | nil => rwa [hnil] at hi
  | append_singleton l j ih =>
    obtain ⟨n, hn⟩ := hsnoc l j
    rw [hn] at hi
    obtain hi | hi := List.mem_append.mp hi
    · exact List.mem_append_left _ (ih hi)
    · exact List.mem_append_right _ (List.mem_singleton.mpr (List.eq_of_mem_replicate hi))

end Orders

/-! ## Whole operations -/

/-- A call with a message that returned ran its turn and marked the message, on the session that it
found. -/
theorem Trace.mark_of_ok {d : Draws} {c : Call V} {l : List (Did V)} {q : ConvProg V}
    (h : Trace d c l q) {r : AgentRunResult V} (hq : q = .ret (.ok r)) {mid : String}
    (hmid : c.messageId = some mid) :
    ∃ s, didLookup d c (.ok s) ∈ l ∧ didTurn c s (.ok r) ∈ l ∧ didMark s mid (.ok ()) ∈ l := by
  have hturn : ∀ s, handleTurn d c s ≠ .ret (.ok r) := by
    intro s hs
    by_cases hr : s.roundCount ≥ s.maxRounds
    · rw [handleTurn_exceeded d c hr] at hs
      cases hs
    · rw [handleTurn_runs d c hr] at hs
      cases hs
  cases h with
  | found s =>
    rw [handleCheck_some d hmid] at hq
    cases hq
  | checked s hmid' => exact absurd hq (hturn s)
  | saved s r' hr =>
    rw [handleMark_some hmid] at hq
    cases hq
  | marked s r' hr hmid' =>
    cases hq
    cases hmid.symm.trans hmid'
    refine ⟨s, List.mem_append_left _ (mem_prelude.mpr (.inl rfl)), ?_, ?_⟩ <;>
      simp only [List.mem_append, List.mem_cons, true_or, or_true]
  | _ => cases hq

section Histories

variable {S : LawfulStore V σ} {turn : TurnFn V ε} {w : World σ ε} {d : ι → Draws}
  {c : ι → Call V} {l₁ l₂ : List (ConvEvent ι V)} {i j : ι} {mid : String}
  {r : AgentRunResult V}

/-- **A call that starts after a call with its message returned** runs no turn. -/
theorem ConvHistory.no_turn_again (hstart : Start S w d)
    (h : ConvHistory S turn w d c (l₁ ++ l₂)) (hkey : (c i).key = (c j).key)
    (hmi : (c i).messageId = some mid) (hmj : (c j).messageId = some mid)
    (hreturned : (handle (d j) (c j)).Leads (Pool.own j l₁) (.ret (.ok r)))
    (hnew : Pool.own i l₁ = []) (t : TurnArgs V) (b : Except (Raised V) (AgentRunResult V)) :
    (⟨i, .runTurn t, b⟩ : ConvEvent ι V) ∉ l₁ ++ l₂ := by
  intro ht
  obtain ⟨s, hs, -, hmark⟩ := (Trace.of_leads hreturned).mark_of_ok rfl hmj
  obtain ⟨q, htrace⟩ := ConvHistory.trace h i
  obtain ⟨s', rest, hown, -⟩ := htrace.of_turn (Pool.mem_own.mpr ht)
  have hs' : didLookup (d i) (c i) (.ok s') ∈ Pool.own i (l₁ ++ l₂) := by
    rw [hown]
    exact List.mem_append_left _ (mem_prelude.mpr (.inl rfl))
  have hcheck : didCheck s' mid (.ok false) ∈ Pool.own i (l₁ ++ l₂) := by
    rw [hown]
    exact List.mem_append_left _ (mem_prelude.mpr (.inr ⟨mid, hmi, rfl⟩))
  have hs₁ : didLookup (d j) (c j) (.ok s) ∈ Pool.own j (l₁ ++ l₂) := by
    rw [Pool.own_append]
    exact List.mem_append_left _ hs
  -- both found the one session of the conversation
  have hsound : Sound S turn w d c (l₁ ++ l₂) := ConvHistory.sound hstart h
  have hid : s'.sessionId = s.sessionId := by
    have hk : s.key = (c j).key := ConvHistory.lookup_key hstart h (Pool.mem_own.mp hs₁)
    have hk' : s'.key = (c i).key := ConvHistory.lookup_key hstart h (Pool.mem_own.mp hs')
    obtain ⟨x, hx, hxid, -⟩ := hsound.found hs₁
    obtain ⟨x', hx', hxid', -⟩ := hsound.found hs'
    rw [hk', hkey, ← hk, hx] at hx'
    cases hx'
    exact hxid'.symm.trans hxid
  rw [Pool.own_append, hnew, List.nil_append] at hcheck
  obtain ⟨m₁, m₂, rfl⟩ := List.append_of_mem (Pool.mem_own.mp hcheck)
  have hafter : Pool.Precedes (l₁ ++ (m₁ ++ checkEvent i s'.sessionId mid (.ok false) :: m₂))
      (markEvent j s.sessionId mid) (checkEvent i s.sessionId mid (.ok false)) :=
    ⟨l₁ ++ m₁, m₂, by rw [hid, List.append_assoc], List.mem_append_left _ (Pool.mem_own.mp hmark)⟩
  exact ConvHistory.stopped hstart h hafter t b ht

end Histories

/-! ## Transactions -/

section Transactions

variable {D : Dialect} {turn : TurnFn String ε} {w : World Db ε} {d : ι → Draws}
  {c : ι → Call String}

omit [DecidableEq ι] in
/-- No call has returned before its first step: the checks on its arguments may only refuse it. -/
theorem expand_handle_ne_ok (d : Draws) (c : Call String) (r : AgentRunResult String) :
    (handle d c).expand (stepProg methodProg) ≠ .ret (.ok r) := by
  intro h
  cases hv : validateArgs c.createArgs with
  | error e =>
    simp only [handle, Prog.call, Prog.expand_vis, stepProg, lifted, methodProg, getOrCreateProg,
      hv, Prog.raise, Prog.expand_ret, Prog.ret_bind, liftStore_error, Prog.ret.injEq,
      reduceCtorEq] at h
  | ok u =>
    simp only [handle, Prog.call, Prog.expand_vis, stepProg, lifted, methodProg, getOrCreateProg,
      hv, lookup, single, storeStep, Prog.vis_bind, reduceCtorEq] at h

/-- Where a call returned before another with its message took its first step, the other asks no
turn in any order of the operations. -/
theorem no_turn_in_order (hstart : Start (sqlAlchemyLawful D) w d) {order : List ι → List ι}
    (hlin : Linearizes (handler (sqlAlchemySessionStore D) turn) (stepHandler (transact D) turn)
      (stepProg methodProg) seenTurn seenStep w (fun i => handle (d i) (c i)) order)
    {l₁ : List ι} {i j : ι} {mid : String} {r : AgentRunResult String}
    (hkey : (c i).key = (c j).key) (hmi : (c i).messageId = some mid)
    (hmj : (c j).messageId = some mid)
    (hreturned :
      ((transactionPool w d c).run (stepHandler (transact D) turn) l₁).Finished j (.ok r))
    (hj : j ∈ l₁) (hnew : i ∉ l₁) (l₂ : List ι) (t : TurnArgs String)
    (b : Except (Raised String) (AgentRunResult String)) :
    (⟨i, .runTurn t, b⟩ : ConvEvent ι String) ∉ ((Pool.start w fun i => handle (d i) (c i)).run
      (handler (sqlAlchemySessionStore D) turn) (order (l₁ ++ l₂))).log := by
  obtain ⟨m, hm⟩ := order_append hlin.snoc l₁ l₂
  obtain ⟨log, hlog⟩ := Pool.run_log (handler (sqlAlchemySessionStore D) turn)
    ((Pool.start w fun i => handle (d i) (c i)).run (handler (sqlAlchemySessionStore D) turn)
      (order l₁)) m
  obtain ⟨-, hleads, -⟩ := Pool.run_history (handler (sqlAlchemySessionStore D) turn) w
    (fun i => handle (d i) (c i)) (order l₁)
  obtain ⟨-, -, hhistory⟩ := Pool.run_history (handler (sqlAlchemySessionStore D) turn) w
    (fun i => handle (d i) (c i)) (order (l₁ ++ l₂))
  rw [hm, Pool.run_append, hlog] at hhistory ⊢
  have hreturned' := hleads j
  rw [show _ = Prog.ret _ from hlin.finished l₁ j _ hj hreturned] at hreturned'
  have hnone := own_of_notMem (handler (sqlAlchemySessionStore D) turn)
    (Pool.start w fun i => handle (d i) (c i))
    fun hi => hnew (mem_of_mem_order hlin.snoc hlin.nil hi)
  exact ConvHistory.no_turn_again hstart hhistory hkey hmi hmj hreturned' hnone t b

/-- **A message that was answered is not executed again.** Calls over `SQLAlchemySessionStore` are
interleaved one transaction at a time. Where a call with a message had returned before another with
the same message, on the same conversation, took its first step, the other asks no turn, and raises
if it ends. -/
theorem answered_not_executed_again (D : Dialect) (turn : TurnFn String ε) (w : World Db ε)
    (d : ι → Draws) (c : ι → Call String) (hstart : Start (sqlAlchemyLawful D) w d)
    (l₁ l₂ : List ι) (i j : ι) (mid : String) (r : AgentRunResult String)
    (hkey : (c i).key = (c j).key) (hmi : (c i).messageId = some mid)
    (hmj : (c j).messageId = some mid)
    (hreturned :
      ((transactionPool w d c).run (stepHandler (transact D) turn) l₁).Finished j (.ok r))
    (hnew : i ∉ l₁) :
    let p := (transactionPool w d c).run (stepHandler (transact D) turn) (l₁ ++ l₂)
    (∀ x ∈ Pool.seenOf seenStep p.log, x.1 ≠ i) ∧
      ∀ out, p.Finished i out → ∃ e, out = .error e := by
  intro p
  obtain ⟨order, hlin⟩ := (handle_takesEffect (takesEffect D) turn).linearizable w
    fun i => handle (d i) (c i)
  have hj : j ∈ l₁ := by
    by_contra hj
    rw [Pool.Finished, threads_of_notMem _ _ hj] at hreturned
    exact expand_handle_ne_ok (d j) (c j) r hreturned
  have hnone := fun l => no_turn_in_order hstart hlin hkey hmi hmj hreturned hj hnew l
  constructor
  · intro x hx hxi
    have hseen : Pool.seenOf seenStep p.log = _ := hlin.seen (l₁ ++ l₂)
    rw [hseen] at hx
    obtain ⟨⟨k, op, a⟩, he, hsome⟩ := List.mem_filterMap.mp hx
    cases op with
    | store op => cases hsome
    | runTurn t =>
      cases hsome
      obtain rfl : k = i := hxi
      exact hnone l₂ t a he
  · intro out hout
    have hlast : ((transactionPool w d c).run (stepHandler (transact D) turn)
        (l₁ ++ (l₂ ++ [i]))).Finished i out := by
      rw [← List.append_assoc, Pool.run_append]
      exact finished_run hout [i]
    have hend := hlin.finished _ i out (by simp) hlast
    cases out with
    | error e => exact ⟨e, rfl⟩
    | ok r' =>
      obtain ⟨-, hleads, -⟩ := Pool.run_history (handler (sqlAlchemySessionStore D) turn) w
        (fun i => handle (d i) (c i)) (order (l₁ ++ (l₂ ++ [i])))
      have hreturn := hleads i
      rw [show _ = Prog.ret _ from hend] at hreturn
      obtain ⟨s, -, hturn, -⟩ := (Trace.of_leads hreturn).mark_of_ok rfl hmi
      exact absurd (Pool.mem_own.mp hturn) (hnone (l₂ ++ [i]) _ _)

/-! ## Two deliveries of one message -/

/-- A database and an echo engine before their first call. -/
def freshTables : World Db (EngineState String Unit Unit) := ⟨.empty, ⟨(), (), []⟩⟩

theorem twoDraws_startTables : Start (sqlAlchemyLawful .sqlite) freshTables twoDraws where
  inv := trivial
  ids := Bool.injective_iff.mpr (by decide)
  fresh := by
    rintro i ⟨k, s, hs, -⟩
    cases hs

/-- The second delivery, begun when the first had been answered, asks no turn. -/
theorem answered_not_executed_again_twice :
    let p := (transactionPool freshTables twoDraws fun _ => delivery "m1").run
      (stepHandler (transact .sqlite) (engineTurn echoEngine))
      (List.replicate 6 false ++ List.replicate 6 true)
    (∀ x ∈ Pool.seenOf seenStep p.log, x.1 ≠ true) ∧ ∃ e, p.Finished true (.error e) := by
  intro p
  obtain ⟨r, hr⟩ : ∃ r, (((transactionPool freshTables twoDraws fun _ => delivery "m1").run
      (stepHandler (transact .sqlite) (engineTurn echoEngine))
      (List.replicate 6 false)).threads false).outcome? = some (.ok r) := ⟨_, rfl⟩
  obtain ⟨hturns, houtcome⟩ := answered_not_executed_again .sqlite (engineTurn echoEngine)
    freshTables twoDraws (fun _ => delivery "m1") twoDraws_startTables (List.replicate 6 false)
    (List.replicate 6 true) true false "m1" r rfl rfl rfl (Prog.outcome?_eq_some.mp hr) (by decide)
  obtain ⟨out, hout⟩ : ∃ out, (p.threads true).outcome? = some out := ⟨_, rfl⟩
  have hend : p.Finished true out := Prog.outcome?_eq_some.mp hout
  obtain ⟨e, rfl⟩ := houtcome out hend
  exact ⟨hturns, e, hend⟩

end Transactions

end ClawEngine.Orchestration
