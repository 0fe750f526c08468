import ClawEngine.Orchestration.Conversation
import ClawEngine.Persistence.Lawful

/-!
# handle on a ledger

`ledgerHandle` is `handle` on the ledger of its store: what a call answers, and the ledger it
leaves. Over any store that accepts every operation, `handle` acts as it does; each step of the
program is matched by the ledger's own operation (`refines_call`).
-/

set_option autoImplicit false

namespace ClawEngine.Orchestration

open ClawEngine.Core ClawEngine.Runtime ClawEngine.Observability ClawEngine.Persistence

variable {V σ ε ω τ : Type}

/-! ## handle on a ledger -/

/-- The session a call is on: the one of its key, or the one it creates. -/
def sessionOf (L : Ledger V) (d : Draws) (c : Call V) : Session V :=
  (L.session c.key).getD (Session.create d.uuid c.createArgs)

/-- The message of a call was processed in the session. -/
def isDuplicate (L : Ledger V) (s : Session V) (c : Call V) : Bool :=
  c.messageId.any (L.processed s.sessionId)

/-- The ledger after the message of a call was marked. -/
def markMessage (s : Session V) (c : Call V) (L : Ledger V) : Ledger V :=
  match c.messageId with
  | some mid => L.mark s.sessionId mid
  | none => L

/-- What follows the two checks. -/
def ledgerTurn (clock : PyFloat → PyFloat) (turn : TurnFn V ε) (d : Draws) (c : Call V)
    (s : Session V) (L : Ledger V) (e : ε) :
    Except (Raised V) (AgentRunResult V) × Ledger V × ε :=
  match turn (c.turnArgs s) e with
  | (.error x, e) => (.error x, L, e)
  | (.ok r, e) =>
    (.ok r, markMessage s c (L.save ((s.withTurn r.backendThreadId d.now).kept clock)), e)

/-- `handle` on a ledger: its answer, and the ledger and the engine state it leaves. -/
def ledgerHandle (clock : PyFloat → PyFloat) (turn : TurnFn V ε) (d : Draws) (c : Call V)
    (L : Ledger V) (e : ε) : Except (Raised V) (AgentRunResult V) × Ledger V × ε :=
  let s := sessionOf L d c
  let L := (L.perform clock (.getOrCreate d.uuid c.createArgs)).2
  if isDuplicate L s c then
    (.error (.duplicateMessage s.sessionId (c.messageId.getD "")), L, e)
  else if s.roundCount ≥ s.maxRounds then
    (.error (.sessionRoundsExceeded s.sessionId s.maxRounds), L, e)
  else ledgerTurn clock turn d c s L e

theorem perform_getOrCreate (L : Ledger V) (clock : PyFloat → PyFloat) (d : Draws) (c : Call V) :
    (L.perform clock (.getOrCreate d.uuid c.createArgs)).1 = sessionOf L d c := by
  simp only [Ledger.perform, sessionOf]
  cases h : L.session c.key with
  | some s => simp only [Call.createArgs, h, Option.getD_some]
  | none => simp only [Call.createArgs, h, Option.getD_none]

/-- After `get_or_create` the ledger has the session the call is on. -/
theorem session_sessionOf {L : Ledger V} (hL : L.WF) (clock : PyFloat → PyFloat) (d : Draws)
    (c : Call V) : (L.perform clock (.getOrCreate d.uuid c.createArgs)).2.session c.key =
      some (sessionOf L d c) ∧ (sessionOf L d c).key = c.key := by
  simp only [Ledger.perform, sessionOf, Call.createArgs]
  cases h : L.session c.key with
  | some s => exact ⟨h, hL.key_eq h⟩
  | none => exact ⟨by simp only [Ledger.create_session, if_true, Option.getD_none], rfl⟩

section Total

variable {S : LawfulStore V σ} {turn : TurnFn V ε} {w : World σ ε} {d : Draws} {c : Call V}

/-- An operation a lawful store accepts, as `handle` sees it. -/
theorem handler_accepted (turn : TurnFn V ε) (op : StoreOp V) (h : S.Inv w.store)
    (hop : (S.view w.store).Allows op) (ha : S.Accepts (S.view w.store) op) :
    ∃ s', handler S.ops turn (.store op) w =
        (.ok ((S.view w.store).perform S.clock op).1, { w with store := s' }) ∧
      S.Inv s' ∧ S.view s' = ((S.view w.store).perform S.clock op).2 := by
  obtain ⟨hans, hinv, hview⟩ := S.accepted h hop ha
  refine ⟨_, ?_, hinv, hview⟩
  simp only [handler, hans]
  rfl

/-- A state of the store is the ledger `L` and keeps its invariant. -/
def IsLedger (S : LawfulStore V σ) (s : σ) (L : Ledger V) : Prop := S.Inv s ∧ S.view s = L

/-- What a call leaves and answers is what the ledger's call does. -/
def Refines (S : LawfulStore V σ) (out : Except (Raised V) (AgentRunResult V) × World σ ε)
    (ref : Except (Raised V) (AgentRunResult V) × Ledger V × ε) : Prop :=
  out.1 = ref.1 ∧ IsLedger S out.2.store ref.2.1 ∧ out.2.engine = ref.2.2

variable {L : Ledger V} {s : Session V}

/-- An accepted operation: the program goes on with the ledger's answer on the ledger it leaves. -/
theorem refines_call {op : StoreOp V} {k : op.Res → ConvProg V}
    {ref : Except (Raised V) (AgentRunResult V) × Ledger V × ε} (hall : ∀ L op, S.Accepts L op)
    (h : IsLedger S w.store L) (hop : L.Allows op)
    (hk : ∀ s', IsLedger S s' (L.perform S.clock op).2 →
      Refines S ((k (L.perform S.clock op).1).run (handler S.ops turn) { w with store := s' }) ref) :
    Refines S ((Prog.call (.store op) k : ConvProg V).run (handler S.ops turn) w) ref := by
  obtain ⟨hinv, rfl⟩ := h
  obtain ⟨s', hs', hinv', hview'⟩ := handler_accepted turn op hinv hop (hall _ op)
  rw [Prog.run_call_ok (R := ConvOp.Res) hs']
  exact hk s' ⟨hinv', hview'⟩

theorem refines_mark {r : AgentRunResult V} (hall : ∀ L op, S.Accepts L op)
    (h : IsLedger S w.store L) (hs : L.Knows s.sessionId) :
    Refines S ((handleMark c s r).run (handler S.ops turn) w)
      (.ok r, markMessage s c L, w.engine) := by
  cases hmid : c.messageId with
  | none =>
    rw [handleMark_none hmid, markMessage, hmid]
    exact ⟨rfl, h, rfl⟩
  | some mid =>
    rw [handleMark_some hmid, markMessage, hmid]
    exact refines_call hall h hs fun s' hs' => ⟨rfl, hs', rfl⟩

theorem refines_turn (hall : ∀ L op, S.Accepts L op) (h : IsLedger S w.store L)
    (hs : L.session s.key = some s) (hrounds : ¬ s.roundCount ≥ s.maxRounds) :
    Refines S ((handleTurn d c s).run (handler S.ops turn) w)
      (ledgerTurn S.clock turn d c s L w.engine) := by
  rw [handleTurn_runs d c hrounds]
  simp only [ledgerTurn]
  cases hturn : turn (c.turnArgs s) w.engine with
  | mk answer e =>
    have hanswer : handler S.ops turn (.runTurn (c.turnArgs s)) w =
        (answer, { w with engine := e }) := by
      simp only [handler, hturn]
    cases answer with
    | error x =>
      rw [Prog.run_call_error (R := ConvOp.Res) hanswer]
      exact ⟨rfl, h, rfl⟩
    | ok r =>
      rw [Prog.run_call_ok (R := ConvOp.Res) hanswer]
      refine refines_call hall h ⟨s, hs, rfl, rfl⟩ fun s' hs' => ?_
      refine refines_mark hall hs' ?_
      exact Ledger.Knows.perform ⟨s.key, s, hs, rfl⟩ (.save (s.withTurn r.backendThreadId d.now))

theorem refines_check (hall : ∀ L op, S.Accepts L op) (h : IsLedger S w.store L)
    (hs : L.session s.key = some s) :
    Refines S ((handleCheck d c s).run (handler S.ops turn) w)
      (if isDuplicate L s c then
        (.error (.duplicateMessage s.sessionId (c.messageId.getD "")), L, w.engine)
      else if s.roundCount ≥ s.maxRounds then
        (.error (.sessionRoundsExceeded s.sessionId s.maxRounds), L, w.engine)
      else ledgerTurn S.clock turn d c s L w.engine) := by
  have hturn : ∀ s', IsLedger S s' L →
      Refines S ((handleTurn d c s).run (handler S.ops turn) { w with store := s' })
        (if s.roundCount ≥ s.maxRounds then
          (.error (.sessionRoundsExceeded s.sessionId s.maxRounds), L, w.engine)
        else ledgerTurn S.clock turn d c s L w.engine) := by
    intro s' hs'
    by_cases hrounds : s.roundCount ≥ s.maxRounds
    · rw [if_pos hrounds, handleTurn_exceeded d c hrounds]
      exact ⟨rfl, hs', rfl⟩
    · rw [if_neg hrounds]
      exact refines_turn (w := { w with store := s' }) hall hs' hs hrounds
  cases hmid : c.messageId with
  | none =>
    rw [handleCheck_none d hmid, isDuplicate, hmid]
    exact hturn w.store h
  | some mid =>
    rw [handleCheck_some d hmid, isDuplicate, hmid]
    refine refines_call hall h ⟨s.key, s, hs, rfl⟩ fun s' hs' => ?_
    simp only [Ledger.perform, Option.any_some]
    by_cases hdup : L.processed s.sessionId mid = true
    · simp only [hdup, if_true]
      exact ⟨rfl, hs', rfl⟩
    · simp only [hdup]
      exact hturn s' hs'

/-- **Over a store that accepts every operation, `handle` is `handle` on its ledger.** -/
theorem runHandle_refines (turn : TurnFn V ε) (hall : ∀ L op, S.Accepts L op)
    (h : S.Inv w.store)
    (hfresh : ¬ (S.view w.store).Knows d.uuid) :
    Refines S (runHandle S.ops turn d c w)
      (ledgerHandle S.clock turn d c (S.view w.store) w.engine) := by
  refine refines_call hall ⟨h, rfl⟩ hfresh fun s' hs' => ?_
  obtain ⟨hsession, hkey⟩ := session_sessionOf (S.wf h) S.clock d c
  rw [perform_getOrCreate]
  exact refines_check (w := { w with store := s' }) hall hs' (hkey ▸ hsession)

end Total

/-! ## An engine to run -/

/-- A backend that answers a prompt with itself, on one thread. -/
def echoBackend : Backend String Unit where
  capabilities := ⟨true, true, false, false, []⟩
  run req w :=
    (⟨[{ kind := .turnCompleted
         result := some { backendThreadId := some "thread", finalText := req.prompt, usage := {} } }],
      none⟩, w)

/-- An engine with the echo backend under every name. -/
def echoEngine : Engine String Unit Unit Unit := ⟨fun _ => some echoBackend, noOpTracer⟩

/-- A delivery of a message to one thread of a channel. -/
def delivery (messageId : String) (maxRounds : Int := defaultMaxRounds) : Call String :=
  { workspaceId := "w", channel := "feishu", externalThreadKey := "t", text := "hi", cwd := "/w"
    env := ∅, backendName := "echo", maxRounds, messageId := some messageId }

end ClawEngine.Orchestration
