import ClawEngine.Core.Pool
import ClawEngine.Laws.LedgerHandle

/-!
# What a call of handle does, and when

`Trace` lists every point `handle` can be at, with the operations it performed and their answers.
Calls of `handle` that run over one lawful store, one operation at a time, are then histories in
which each call's own operations are such a trace. Within any history every operation keeps to the
store's contract (`Sound`), so the store is a ledger at every moment.
-/

set_option autoImplicit false

namespace ClawEngine.Orchestration

open ClawEngine.Core ClawEngine.Runtime ClawEngine.Persistence

variable {V σ ε : Type}

/-- An operation of `handle` with its answer. -/
abbrev Did (V : Type) := Prog.Answered (ConvOp V) (ConvAns V)

/-! ## The operations of a call -/

section Steps

variable (d : Draws) (c : Call V) (s : Session V)

/-- `get_or_create` was answered. -/
def didLookup (a : Except (Raised V) (Session V)) : Did V :=
  ⟨.store (.getOrCreate d.uuid c.createArgs), a⟩

/-- `is_processed` was answered. -/
def didCheck (mid : String) (a : Except (Raised V) Bool) : Did V :=
  ⟨.store (.isProcessed s.sessionId mid), a⟩

/-- The turn was answered. -/
def didTurn (a : Except (Raised V) (AgentRunResult V)) : Did V :=
  ⟨.runTurn (c.turnArgs s), a⟩

/-- `save` was answered. -/
def didSave (r : AgentRunResult V) (a : Except (Raised V) Unit) : Did V :=
  ⟨.store (.save (s.withTurn r.backendThreadId d.now)), a⟩

/-- `mark_processed` was answered. -/
def didMark (mid : String) (a : Except (Raised V) Unit) : Did V :=
  ⟨.store (.markProcessed s.sessionId mid), a⟩

/-- What a call did before its turn: it found its session, whose message is new. -/
def prelude : List (Did V) :=
  didLookup d c (.ok s) ::
    match c.messageId with
    | some mid => [didCheck s mid (.ok false)]
    | none => []

end Steps

/-- The points of `handle`. -/
inductive Trace (d : Draws) (c : Call V) : List (Did V) → ConvProg V → Prop
  | start : Trace d c [] (handle d c)
  | lookupFailed (x : Raised V) : Trace d c [didLookup d c (.error x)] (.ret (.error x))
  | found (s : Session V) : Trace d c [didLookup d c (.ok s)] (handleCheck d c s)
  | checkFailed (s : Session V) (x : Raised V) {mid : String} (hmid : c.messageId = some mid) :
    Trace d c [didLookup d c (.ok s), didCheck s mid (.error x)] (.ret (.error x))
  | duplicate (s : Session V) {mid : String} (hmid : c.messageId = some mid) :
    Trace d c [didLookup d c (.ok s), didCheck s mid (.ok true)]
      (.ret (.error (.duplicateMessage s.sessionId mid)))
  | checked (s : Session V) {mid : String} (hmid : c.messageId = some mid) :
    Trace d c (prelude d c s) (handleTurn d c s)
  | turnFailed (s : Session V) (x : Raised V) (h : s.roundCount < s.maxRounds) :
    Trace d c (prelude d c s ++ [didTurn c s (.error x)]) (.ret (.error x))
  | turned (s : Session V) (r : AgentRunResult V) (h : s.roundCount < s.maxRounds) :
    Trace d c (prelude d c s ++ [didTurn c s (.ok r)]) (handleSave d c s r)
  | saveFailed (s : Session V) (r : AgentRunResult V) (x : Raised V)
    (h : s.roundCount < s.maxRounds) :
    Trace d c (prelude d c s ++ [didTurn c s (.ok r), didSave d s r (.error x)]) (.ret (.error x))
  | saved (s : Session V) (r : AgentRunResult V) (h : s.roundCount < s.maxRounds) :
    Trace d c (prelude d c s ++ [didTurn c s (.ok r), didSave d s r (.ok ())])
      (handleMark c s r)
  | markFailed (s : Session V) (r : AgentRunResult V) (x : Raised V) {mid : String}
    (h : s.roundCount < s.maxRounds) (hmid : c.messageId = some mid) :
    Trace d c (prelude d c s ++ [didTurn c s (.ok r), didSave d s r (.ok ()),
      didMark s mid (.error x)]) (.ret (.error x))
  | marked (s : Session V) (r : AgentRunResult V) {mid : String}
    (h : s.roundCount < s.maxRounds) (hmid : c.messageId = some mid) :
    Trace d c (prelude d c s ++ [didTurn c s (.ok r), didSave d s r (.ok ()),
      didMark s mid (.ok ())]) (.ret (.ok r))

section Traces

variable {d : Draws} {c : Call V} {l : List (Did V)}

theorem prelude_some {mid : String} (hmid : c.messageId = some mid) (s : Session V) :
    prelude d c s = [didLookup d c (.ok s), didCheck s mid (.ok false)] := by
  rw [prelude, hmid]

theorem prelude_none (hmid : c.messageId = none) (s : Session V) :
    prelude d c s = [didLookup d c (.ok s)] := by
  rw [prelude, hmid]

/-- The round limit, then the turn. -/
theorem trace_turn {s : Session V} {op : ConvOp V} {k : ConvAns V op → ConvProg V}
    (hq : Prog.vis op k = handleTurn d c s) (a : ConvAns V op) :
    Trace d c (prelude d c s ++ [⟨op, a⟩]) (k a) := by
  by_cases hrounds : s.roundCount ≥ s.maxRounds
  · rw [handleTurn_exceeded d c hrounds] at hq
    cases hq
  · rw [handleTurn_runs d c hrounds] at hq
    cases hq
    cases a with
    | error x => exact .turnFailed s x (not_le.mp hrounds)
    | ok r => exact .turned s r (not_le.mp hrounds)

/-- Each operation leads from a point to a point. -/
theorem Trace.step {op : ConvOp V} {k : ConvAns V op → ConvProg V}
    (h : Trace d c l (.vis op k)) (a : ConvAns V op) : Trace d c (l ++ [⟨op, a⟩]) (k a) := by
  generalize hq : Prog.vis op k = q at h
  cases h with
  | start =>
    cases hq
    cases a with
    | error x => exact .lookupFailed x
    | ok s => exact .found s
  | found s =>
    cases hmid : c.messageId with
    | none =>
      rw [handleCheck_none d hmid] at hq
      rw [← prelude_none hmid]
      exact trace_turn hq a
    | some mid =>
      rw [handleCheck_some d hmid] at hq
      cases hq
      match a with
      | .error x => exact .checkFailed s x hmid
      | .ok true => exact .duplicate s hmid
      | .ok false =>
        have hchecked : Trace d c (prelude d c s) (handleTurn d c s) := .checked s hmid
        rw [prelude_some hmid] at hchecked
        exact hchecked
  | checked s hmid => exact trace_turn hq a
  | turned s r hrounds =>
    cases hq
    rw [List.append_assoc]
    cases a with
    | error x => exact .saveFailed s r x hrounds
    | ok u => exact .saved s r hrounds
  | saved s r hrounds =>
    cases hmid : c.messageId with
    | none =>
      rw [handleMark_none hmid] at hq
      cases hq
    | some mid =>
      rw [handleMark_some hmid] at hq
      cases hq
      rw [List.append_assoc]
      cases a with
      | error x => exact .markFailed s r x hrounds hmid
      | ok u => exact .marked s r hrounds hmid
  | _ => cases hq

/-- **Every run of `handle` is a trace.** -/
theorem Trace.of_leads {q : ConvProg V} (h : (handle d c).Leads l q) : Trace d c l q := by
  induction l using List.reverseRecOn generalizing q with
  | nil =>
    cases h
    exact .start
  | append_singleton l o ih =>
    obtain ⟨r, hr, hlast⟩ := h.split
    cases hlast with
    | step rest =>
      rw [rest.of_nil]
      exact (ih hr).step _

theorem mem_prelude {s : Session V} {o : Did V} : o ∈ prelude d c s ↔
    o = didLookup d c (.ok s) ∨ ∃ mid, c.messageId = some mid ∧ o = didCheck s mid (.ok false) := by
  cases hmid : c.messageId with
  | none => simp only [prelude_none hmid, List.mem_singleton, reduceCtorEq, false_and,
      exists_false, or_false]
  | some mid => simp only [prelude_some hmid, List.mem_cons, List.not_mem_nil, or_false,
      Option.some.injEq, exists_eq_left']

/-- What a call asks at each of its points. -/
inductive Asks (d : Draws) (c : Call V) (l : List (Did V)) : ConvOp V → Prop
  | lookup (h : l = []) : Asks d c l (.store (.getOrCreate d.uuid c.createArgs))
  | check {s : Session V} {mid : String} (hs : didLookup d c (.ok s) ∈ l) :
    Asks d c l (.store (.isProcessed s.sessionId mid))
  | turn {s : Session V} (hs : didLookup d c (.ok s) ∈ l) : Asks d c l (.runTurn (c.turnArgs s))
  | save {s : Session V} {r : AgentRunResult V} (hs : didLookup d c (.ok s) ∈ l)
    (h : s.roundCount < s.maxRounds)
    (first : ∀ x a, (⟨.store (.save x), a⟩ : Did V) ∉ l) :
    Asks d c l (.store (.save (s.withTurn r.backendThreadId d.now)))
  | mark {s : Session V} {mid : String} (hs : didLookup d c (.ok s) ∈ l) :
    Asks d c l (.store (.markProcessed s.sessionId mid))

theorem asks_turn {s : Session V} {op : ConvOp V} {k : ConvAns V op → ConvProg V}
    (hq : Prog.vis op k = handleTurn d c s) (hs : didLookup d c (.ok s) ∈ l) : Asks d c l op := by
  by_cases hrounds : s.roundCount ≥ s.maxRounds
  · rw [handleTurn_exceeded d c hrounds] at hq
    cases hq
  · rw [handleTurn_runs d c hrounds] at hq
    cases hq
    exact .turn hs

theorem Trace.asks {op : ConvOp V} {k : ConvAns V op → ConvProg V}
    (h : Trace d c l (.vis op k)) : Asks d c l op := by
  generalize hq : Prog.vis op k = q at h
  have hprelude : ∀ s rest, didLookup d c (.ok s) ∈ prelude d c s ++ rest := fun s rest =>
    List.mem_append_left _ (mem_prelude.mpr (.inl rfl))
  cases h with
  | start =>
    cases hq
    exact .lookup rfl
  | found s =>
    cases hmid : c.messageId with
    | none =>
      rw [handleCheck_none d hmid] at hq
      exact asks_turn hq List.mem_cons_self
    | some mid =>
      rw [handleCheck_some d hmid] at hq
      cases hq
      exact .check List.mem_cons_self
  | checked s hmid => exact asks_turn hq (mem_prelude.mpr (.inl rfl))
  | turned s r hrounds =>
    cases hq
    refine .save (hprelude s _) hrounds fun x a hx => ?_
    rcases List.mem_append.mp hx with hx | hx
    · rcases mem_prelude.mp hx with hx | ⟨mid, -, hx⟩ <;> cases hx
    · cases List.mem_singleton.mp hx
  | saved s r hrounds =>
    cases hmid : c.messageId with
    | none =>
      rw [handleMark_none hmid] at hq
      cases hq
    | some mid =>
      rw [handleMark_some hmid] at hq
      cases hq
      exact .mark (hprelude s _)
  | _ => cases hq

end Traces

/-! ## Calls over one store -/

section Shared

variable {ι : Type} [DecidableEq ι]

/-- Calls `i` may start on the store: it is lawful, and the ids they draw are fresh. -/
structure Start (S : LawfulStore V σ) (w : World σ ε) (d : ι → Draws) : Prop where
  inv : S.Inv w.store
  ids : Function.Injective fun i => (d i).uuid
  fresh : ∀ i, ¬ (S.view w.store).Knows (d i).uuid

/-- An event of interleaved calls. -/
abbrev ConvEvent (ι V : Type) := Event ι (ConvOp V) (ConvAns V)

/-- The logs of interleaved calls of `handle`. -/
abbrev ConvHistory (S : LawfulStore V σ) (turn : TurnFn V ε) (w : World σ ε) (d : ι → Draws)
    (c : ι → Call V) (log : List (ConvEvent ι V)) : Prop :=
  Pool.History (handler S.ops turn) w (fun i => handle (d i) (c i)) log

/-- The ledger after a log. -/
def ledgerAt (S : LawfulStore V σ) (turn : TurnFn V ε) (w : World σ ε)
    (log : List (ConvEvent ι V)) : Ledger V :=
  S.view (Pool.replay (handler S.ops turn) w log).store

/-- What an operation with its answer does to the ledger: a turn nothing, an accepted operation of
the store what the ledger's does, a refused one nothing. -/
def Effect (clock : PyFloat → PyFloat) (L : Ledger V) :
    (op : ConvOp V) → ConvAns V op → Ledger V → Prop
  | .runTurn _, _, L' => L' = L
  | .store op, a, L' =>
    (a = .ok (L.perform clock op).1 ∧ L' = (L.perform clock op).2) ∨
      ((∃ x, a = .error x) ∧ L' = L)

variable {S : LawfulStore V σ} {turn : TurnFn V ε} {w : World σ ε} {d : ι → Draws}
  {c : ι → Call V} {log l : List (ConvEvent ι V)}

theorem ConvHistory.trace (h : ConvHistory S turn w d c log) (i : ι) :
    ∃ q, Trace (d i) (c i) (Pool.own i log) q := by
  obtain ⟨q, hq⟩ := h.leads i
  exact ⟨q, .of_leads hq⟩

theorem ConvHistory.asks {e : ConvEvent ι V} (h : ConvHistory S turn w d c (l ++ [e])) :
    Asks (d e.thread) (c e.thread) (Pool.own e.thread l) e.op := by
  obtain ⟨-, k, hk⟩ := h.last
  exact (Trace.of_leads hk).asks

/-- The store at a moment: a ledger, in which every session that was found is, and which knows only
the ids of the start and of calls that asked something. -/
structure Sound (S : LawfulStore V σ) (turn : TurnFn V ε) (w : World σ ε) (d : ι → Draws)
    (c : ι → Call V) (log : List (ConvEvent ι V)) : Prop where
  inv : S.Inv (Pool.replay (handler S.ops turn) w log).store
  known : ∀ {sid}, (ledgerAt S turn w log).Knows sid → (S.view w.store).Knows sid ∨
    ∃ i, sid = (d i).uuid ∧ Pool.own i log ≠ []
  found : ∀ {i s}, didLookup (d i) (c i) (.ok s) ∈ Pool.own i log →
    (ledgerAt S turn w log).Obtained s

/-- The next operation of a call is within the store's contract. -/
theorem Sound.allows (hstart : Start S w d) (hl : Sound S turn w d c l) {i : ι} {op : StoreOp V}
    {a : ConvAns V (.store op)} (h : ConvHistory S turn w d c (l ++ [⟨i, .store op, a⟩])) :
    (ledgerAt S turn w l).Allows op := by
  have hasks : Asks (d i) (c i) (Pool.own i l) (.store op) := h.asks
  generalize hop : ConvOp.store op = o at hasks
  cases hasks with
  | lookup hnil =>
    cases hop
    intro hknows
    rcases hl.known hknows with hknows | ⟨j, hj, hown⟩
    · exact hstart.fresh i hknows
    · exact hown (hstart.ids hj ▸ hnil)
  | check hs =>
    cases hop
    exact (hl.found hs).knows
  | save hs =>
    cases hop
    have hfound := hl.found hs
    exact hfound
  | mark hs =>
    cases hop
    exact (hl.found hs).knows
  | turn => cases hop

/-- **The effect of the next operation**, and the invariant after it. -/
theorem Sound.effect (hstart : Start S w d) (hl : Sound S turn w d c l) {e : ConvEvent ι V}
    (h : ConvHistory S turn w d c (l ++ [e])) :
    Effect S.clock (ledgerAt S turn w l) e.op e.ans (ledgerAt S turn w (l ++ [e])) ∧
      S.Inv (Pool.replay (handler S.ops turn) w (l ++ [e])).store := by
  obtain ⟨i, op, a⟩ := e
  obtain ⟨hans, -⟩ := h.last
  simp only [ledgerAt, Pool.replay_snoc]
  cases op with
  | runTurn t => exact ⟨rfl, hl.inv⟩
  | store op =>
    have hallows := hl.allows hstart h
    simp only [handler] at hans ⊢
    refine ⟨?_, S.inv_perform hl.inv hallows⟩
    rcases S.perform_cases hl.inv hallows with ⟨hok, hview⟩ | ⟨⟨x, herror⟩, hview⟩
    · exact .inl ⟨by rw [hans, hok]; rfl, hview⟩
    · exact .inr ⟨⟨.store x, by rw [hans, herror]; rfl⟩, hview⟩

section Effects

variable {clock : PyFloat → PyFloat} {L L' : Ledger V} {op : ConvOp V} {a : ConvAns V op}

/-- What an effect leaves: the ledger as it was, or after an operation of the store. -/
theorem Effect.cases (h : Effect clock L op a L') :
    L' = L ∨ ∃ o, op = .store o ∧ L' = (L.perform clock o).2 := by
  cases op with
  | runTurn t => exact .inl h
  | store o =>
    rcases h with ⟨-, rfl⟩ | ⟨-, rfl⟩
    · exact .inr ⟨o, rfl, rfl⟩
    · exact .inl rfl

theorem Effect.obtained (h : Effect clock L op a L') {s : Session V} (hs : L.Obtained s) :
    L'.Obtained s := by
  rcases h.cases with rfl | ⟨o, -, rfl⟩
  · exact hs
  · exact hs.perform o

/-- A processed message stays processed. -/
theorem Effect.processed (h : Effect clock L op a L') {sid mid : String}
    (hp : L.processed sid mid = true) : L'.processed sid mid = true := by
  rcases h.cases with rfl | ⟨o, -, rfl⟩
  · exact hp
  · exact Ledger.processed_perform hp o

/-- Only `get_or_create` makes an id known, the one it draws. -/
theorem Effect.knows (h : Effect clock L op a L') {sid : String} (hs : L'.Knows sid) :
    L.Knows sid ∨ ∃ x, op = .store (.getOrCreate sid x) := by
  rcases h.cases with rfl | ⟨o, rfl, rfl⟩
  · exact .inl hs
  · refine (Ledger.knows_perform hs).imp_right ?_
    rintro ⟨x, rfl⟩
    exact ⟨x, rfl⟩

/-- What `get_or_create` found is in the ledger after it. -/
theorem Effect.lookup (hL : L.WF) {uuid : String} {x : CreateArgs} {s : Session V}
    (h : Effect clock L (.store (.getOrCreate uuid x)) (.ok s) L') : L'.Obtained s := by
  rcases h with ⟨hs, rfl⟩ | ⟨⟨y, hy⟩, -⟩
  · cases hs
    exact Ledger.obtained_getOrCreate hL uuid x
  · cases hy

end Effects

/-- **Every history is sound.** -/
theorem ConvHistory.sound (hstart : Start S w d) (h : ConvHistory S turn w d c log) :
    Sound S turn w d c log := by
  refine Pool.History.induct (P := Sound S turn w d c) ?_ ?_ h
  · exact ⟨hstart.inv, .inl, fun hs => by cases hs⟩
  · intro l e hle hl
    obtain ⟨heffect, hinv⟩ := hl.effect hstart hle
    have hasks := ConvHistory.asks hle
    refine ⟨hinv, ?_, ?_⟩
    · intro sid hsid
      rcases heffect.knows hsid with hsid | ⟨x, hx⟩
      · refine (hl.known hsid).imp_right ?_
        rintro ⟨i, hi, hown⟩
        refine ⟨i, hi, ?_⟩
        rw [Pool.own_append]
        exact List.append_ne_nil_of_left_ne_nil hown _
      · rw [hx] at hasks
        cases hasks with
        | lookup hnil =>
          refine .inr ⟨e.thread, rfl, ?_⟩
          rw [Pool.own_append, Pool.own_self]
          exact List.append_ne_nil_of_right_ne_nil _ (List.cons_ne_nil _ _)
    · intro i s hs
      rw [Pool.mem_own, List.mem_append, List.mem_singleton] at hs
      rcases hs with hs | rfl
      · exact heffect.obtained (hl.found (Pool.mem_own.mpr hs))
      · exact Effect.lookup (S.wf hl.inv) heffect

/-- The effect of an event of a history. -/
theorem ConvHistory.effect (hstart : Start S w d) {e : ConvEvent ι V}
    (h : ConvHistory S turn w d c (l ++ [e])) :
    Effect S.clock (ledgerAt S turn w l) e.op e.ans (ledgerAt S turn w (l ++ [e])) :=
  ((ConvHistory.sound hstart h.left).effect hstart h).1

theorem ConvHistory.wf (hstart : Start S w d) (h : ConvHistory S turn w d c log) :
    (ledgerAt S turn w log).WF := S.wf (h.sound hstart).inv

end Shared

/-! ## Two calls in lockstep -/

/-- The draws of two calls. -/
def twoDraws (i : Bool) : Draws := ⟨if i then "s1" else "s2", .finite 1⟩

/-- A memory store and an echo engine before their first call. -/
def freshWorld : World (MemoryStore String) (EngineState String Unit Unit) := ⟨.empty, ⟨(), (), []⟩⟩

/-- Two deliveries of messages to one thread, after each performed its five operations in turn. -/
def lockstep (messageId : Bool → String) (maxRounds : Int) :=
  (Pool.start freshWorld fun i => handle (twoDraws i) (delivery (messageId i) maxRounds)).run
    (handler (memoryLawful String).ops (engineTurn echoEngine))
    [true, false, true, false, true, false, true, false, true, false]

theorem twoDraws_start : Start (memoryLawful String) freshWorld twoDraws where
  inv := MemoryStore.Inv.empty
  ids := Bool.injective_iff.mpr (by decide)
  fresh := by
    rintro i ⟨k, s, hs, -⟩
    cases hs

end ClawEngine.Orchestration
