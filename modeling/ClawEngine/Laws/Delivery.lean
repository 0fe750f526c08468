import ClawEngine.Laws.HandleTrace

/-!
# Redelivered messages

Calls of `handle` over one store, interleaved at single store operations and turns. A mark that was
made stops every call that checks the message after it; a call that checked before it runs its turn.
So a message is executed twice by overlapping calls only, each of which made its check before the
other made its mark.
-/

set_option autoImplicit false

namespace ClawEngine.Orchestration

open ClawEngine.Core ClawEngine.Runtime ClawEngine.Persistence

variable {V σ ε ι : Type} [DecidableEq ι]

section Traces

variable {d : Draws} {c : Call V} {l : List (Did V)} {q : ConvProg V}

/-- Neither a lookup nor a duplicate check. -/
def IsLate : Did V → Prop
  | ⟨.store (.getOrCreate _ _), _⟩ => False
  | ⟨.store (.isProcessed _ _), _⟩ => False
  | _ => True

/-- A call that ran a turn found its session and its message new, once each. -/
theorem Trace.of_turn (h : Trace d c l q) {t : TurnArgs V}
    {b : Except (Raised V) (AgentRunResult V)} (ht : (⟨.runTurn t, b⟩ : Did V) ∈ l) :
    ∃ s rest, l = prelude d c s ++ rest ∧ ∀ o ∈ rest, IsLate o := by
  have hprelude : ∀ s, (⟨.runTurn t, b⟩ : Did V) ∉ prelude d c s := by
    intro s hs
    rcases mem_prelude.mp hs with hs | ⟨mid, -, hs⟩ <;> cases hs
  have hlate : ∀ rest : List (Did V), (∀ o ∈ rest, IsLate o) → ∀ s, ∃ s' rest',
      prelude d c s ++ rest = prelude d c s' ++ rest' ∧ ∀ o ∈ rest', IsLate o :=
    fun rest hrest s => ⟨s, rest, rfl, hrest⟩
  cases h with
  | start => cases ht
  | lookupFailed x => simp [didLookup] at ht
  | found s => simp [didLookup] at ht
  | checkFailed s x hmid => simp [didLookup, didCheck] at ht
  | duplicate s hmid => simp [didLookup, didCheck] at ht
  | checked s hmid => exact absurd ht (hprelude s)
  | turnFailed s x hr => exact hlate _ (by simp [didTurn, IsLate]) s
  | turned s r hr => exact hlate _ (by simp [didTurn, IsLate]) s
  | saveFailed s r x hr => exact hlate _ (by simp [didTurn, didSave, IsLate]) s
  | saved s r hr => exact hlate _ (by simp [didTurn, didSave, IsLate]) s
  | markFailed s r x hr hmid => exact hlate _ (by simp [didTurn, didSave, didMark, IsLate]) s
  | marked s r hr hmid => exact hlate _ (by simp [didTurn, didSave, didMark, IsLate]) s

/-- A call that ran a turn was told that its message is new. -/
theorem Trace.check_of_turn (h : Trace d c l q) {t : TurnArgs V}
    {b : Except (Raised V) (AgentRunResult V)} (ht : (⟨.runTurn t, b⟩ : Did V) ∈ l)
    {sid mid : String} {a : Except (Raised V) Bool}
    (hcheck : (⟨.store (.isProcessed sid mid), a⟩ : Did V) ∈ l) : a = .ok false := by
  obtain ⟨s, rest, rfl, hrest⟩ := h.of_turn ht
  rcases List.mem_append.mp hcheck with hcheck | hcheck
  · rcases mem_prelude.mp hcheck with hcheck | ⟨mid', -, hcheck⟩
    · cases hcheck
    · cases hcheck
      rfl
  · exact (hrest _ hcheck).elim

/-- A call that carries a message and ran a turn checked the message in the session it found. -/
theorem Trace.checked_of_turn (h : Trace d c l q) {t : TurnArgs V}
    {b : Except (Raised V) (AgentRunResult V)} (ht : (⟨.runTurn t, b⟩ : Did V) ∈ l) {s : Session V}
    (hs : didLookup d c (.ok s) ∈ l) {mid : String} (hmid : c.messageId = some mid) :
    didCheck s mid (.ok false) ∈ l := by
  obtain ⟨s', rest, rfl, hrest⟩ := h.of_turn ht
  rcases List.mem_append.mp hs with hs | hs
  · rcases mem_prelude.mp hs with hs | ⟨mid', -, hs⟩
    · have hsame : s = s' := by
        have hans := eq_of_heq (Sigma.mk.inj hs).2
        exact Except.ok.inj hans
      rw [hsame]
      exact List.mem_append_left _ (mem_prelude.mpr (.inr ⟨mid, hmid, rfl⟩))
    · cases hs
  · exact (hrest _ hs).elim

end Traces

section Deliveries

variable {S : LawfulStore V σ} {turn : TurnFn V ε} {w : World σ ε} {d : ι → Draws}
  {c : ι → Call V} {log l₁ l₂ : List (ConvEvent ι V)}

theorem ConvHistory.processed_mono (hstart : Start S w d)
    (h : ConvHistory S turn w d c (l₁ ++ l₂)) {sid mid : String}
    (hp : (ledgerAt S turn w l₁).processed sid mid = true) :
    (ledgerAt S turn w (l₁ ++ l₂)).processed sid mid = true := by
  induction l₂ using List.reverseRecOn with
  | nil =>
    rw [List.append_nil]
    exact hp
  | append_singleton l e ih =>
    rw [← List.append_assoc] at h ⊢
    exact (ConvHistory.effect hstart h).processed (ih h.left)

/-- After a mark was made the message is processed. -/
theorem ConvHistory.processed_of_mark (hstart : Start S w d) (h : ConvHistory S turn w d c log)
    {j : ι} {sid mid : String}
    (hmark : (⟨j, .store (.markProcessed sid mid), .ok ()⟩ : ConvEvent ι V) ∈ log) :
    (ledgerAt S turn w log).processed sid mid = true := by
  obtain ⟨l₁, l₂, rfl⟩ := List.append_of_mem hmark
  rw [List.append_cons] at h ⊢
  refine ConvHistory.processed_mono hstart h ?_
  rcases ConvHistory.effect hstart h.left with ⟨-, hview⟩ | ⟨⟨x, hx⟩, -⟩
  · rw [hview]
    exact (Ledger.mark_processed ..).mpr (.inr ⟨rfl, rfl⟩)
  · cases hx

/-- The call ran a turn to completion. -/
def Executed (log : List (ConvEvent ι V)) (i : ι) : Prop :=
  ∃ t r, (⟨i, .runTurn t, .ok r⟩ : ConvEvent ι V) ∈ log

/-- The call carries the message, on the session. -/
def Carries (d : ι → Draws) (c : ι → Call V) (log : List (ConvEvent ι V)) (i : ι)
    (sid mid : String) : Prop :=
  (c i).messageId = some mid ∧
    ∃ s, didLookup (d i) (c i) (.ok s) ∈ Pool.own i log ∧ s.sessionId = sid

/-- The duplicate check of a call. -/
def checkEvent (i : ι) (sid mid : String) (a : Except (Raised V) Bool) : ConvEvent ι V :=
  ⟨i, .store (.isProcessed sid mid), a⟩

/-- The mark a call made. -/
def markEvent (i : ι) (sid mid : String) : ConvEvent ι V :=
  ⟨i, .store (.markProcessed sid mid), .ok ()⟩

/-- A check after a mark stops its call. -/
theorem ConvHistory.stopped (hstart : Start S w d) (h : ConvHistory S turn w d c log) {i j : ι}
    {sid mid : String} {a : Except (Raised V) Bool}
    (hafter : Pool.Precedes log (markEvent j sid mid) (checkEvent i sid mid a)) (t : TurnArgs V)
    (b : Except (Raised V) (AgentRunResult V)) :
    (⟨i, .runTurn t, b⟩ : ConvEvent ι V) ∉ log := by
  intro ht
  obtain ⟨l₁, l₂, rfl, hmark⟩ := hafter
  obtain ⟨q, htrace⟩ := ConvHistory.trace h i
  have hnew : a = .ok false := htrace.check_of_turn (Pool.mem_own.mpr ht)
    (Pool.mem_own.mpr (List.mem_append_right _ List.mem_cons_self))
  rw [List.append_cons] at h
  have hp := ConvHistory.processed_of_mark hstart h.left.left hmark
  rcases ConvHistory.effect hstart h.left with ⟨hans, -⟩ | ⟨⟨x, hx⟩, -⟩
  · have hdup : a = .ok true := by rw [← hp]; exact hans
    rw [hnew] at hdup
    cases hdup
  · rw [show a = .error x from hx] at hnew
    cases hnew

/-- **A message is executed twice only by overlapping calls.** In every interleaving of calls over
a lawful store: a call whose duplicate check comes after a mark of its message runs no turn; and
where two calls that carry one message on one session both ran a turn to completion, each was told
the message is new, before the other made its mark. -/
theorem executed_calls_overlap (S : LawfulStore V σ) (turn : TurnFn V ε) (w : World σ ε)
    (d : ι → Draws) (c : ι → Call V) (hstart : Start S w d) (schedule : List ι) :
    let log := ((Pool.start w fun i => handle (d i) (c i)).run (handler S.ops turn) schedule).log
    (∀ i j sid mid a, Pool.Precedes log (markEvent j sid mid) (checkEvent i sid mid a) →
      ∀ t b, (⟨i, .runTurn t, b⟩ : ConvEvent ι V) ∉ log) ∧
    ∀ i j sid mid, i ≠ j → Carries d c log i sid mid → Carries d c log j sid mid →
      Executed log i → Executed log j →
        checkEvent i sid mid (.ok false) ∈ log ∧ checkEvent j sid mid (.ok false) ∈ log ∧
        (markEvent j sid mid ∈ log →
          Pool.Precedes log (checkEvent i sid mid (.ok false)) (markEvent j sid mid)) ∧
        (markEvent i sid mid ∈ log →
          Pool.Precedes log (checkEvent j sid mid (.ok false)) (markEvent i sid mid)) := by
  intro log
  have h : ConvHistory S turn w d c log :=
    (Pool.run_history (handler S.ops turn) w (fun i => handle (d i) (c i)) schedule).2.2
  have hchecked : ∀ i sid mid, Carries d c log i sid mid → Executed log i →
      checkEvent i sid mid (.ok false) ∈ log := by
    rintro i sid mid ⟨hmid, s, hs, rfl⟩ ⟨t, r, ht⟩
    obtain ⟨q, htrace⟩ := ConvHistory.trace h i
    exact Pool.mem_own.mp (htrace.checked_of_turn (Pool.mem_own.mpr ht) hs hmid)
  have hbefore : ∀ i j sid mid, Executed log i → checkEvent i sid mid (.ok false) ∈ log →
      markEvent j sid mid ∈ log →
        Pool.Precedes log (checkEvent i sid mid (.ok false)) (markEvent j sid mid) := by
    rintro i j sid mid ⟨t, r, ht⟩ hi hj
    rcases Pool.precedes_total hi hj with heq | hbefore | hafter
    · cases heq
    · exact hbefore
    · exact absurd ht (ConvHistory.stopped hstart h hafter t _)
  refine ⟨fun i j sid mid a hafter => ConvHistory.stopped hstart h hafter, ?_⟩
  intro i j sid mid _ hi hj hexi hexj
  have hci := hchecked i sid mid hi hexi
  have hcj := hchecked j sid mid hj hexj
  exact ⟨hci, hcj, hbefore i j sid mid hexi hci, hbefore j i sid mid hexj hcj⟩

end Deliveries

/-- One message delivered twice at once: each call is told it is new. -/
theorem executed_calls_overlap_lockstep :
    checkEvent true "s1" "m1" (.ok false) ∈ (lockstep (fun _ => "m1") 50).log ∧
      Pool.Precedes (lockstep (fun _ => "m1") 50).log (checkEvent true "s1" "m1" (.ok false))
        (markEvent false "s1" "m1") := by
  obtain ⟨-, hpair⟩ := executed_calls_overlap (memoryLawful String) (engineTurn echoEngine)
    freshWorld twoDraws (fun _ => delivery "m1") twoDraws_start
    [true, false, true, false, true, false, true, false, true, false]
  obtain ⟨hcheck, -, hbefore, -⟩ := hpair true false "s1" "m1" (by decide)
    ⟨rfl, _, List.mem_of_getElem? (i := 0) rfl, rfl⟩ ⟨rfl, _, List.mem_of_getElem? (i := 0) rfl, rfl⟩
    ⟨_, _, List.mem_of_getElem? (i := 4) rfl⟩ ⟨_, _, List.mem_of_getElem? (i := 5) rfl⟩
  exact ⟨hcheck, hbefore (List.mem_of_getElem? (i := 9) rfl)⟩

/-- Two overlapping deliveries of one message both run a turn to completion and return. -/
theorem message_executed_twice :
    (∃ r, (lockstep (fun _ => "m1") 50).Finished true (.ok r)) ∧
      (∃ r, (lockstep (fun _ => "m1") 50).Finished false (.ok r)) ∧
      Executed (lockstep (fun _ => "m1") 50).log true ∧
      Executed (lockstep (fun _ => "m1") 50).log false ∧
      Carries twoDraws (fun _ => delivery "m1") (lockstep (fun _ => "m1") 50).log true "s1" "m1" ∧
      Carries twoDraws (fun _ => delivery "m1") (lockstep (fun _ => "m1") 50).log false "s1" "m1" :=
  ⟨⟨_, rfl⟩, ⟨_, rfl⟩, ⟨_, _, List.mem_of_getElem? (i := 4) rfl⟩,
    ⟨_, _, List.mem_of_getElem? (i := 5) rfl⟩,
    ⟨rfl, _, List.mem_of_getElem? (i := 0) rfl, rfl⟩,
    ⟨rfl, _, List.mem_of_getElem? (i := 0) rfl, rfl⟩⟩

end ClawEngine.Orchestration
