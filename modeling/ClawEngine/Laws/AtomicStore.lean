import ClawEngine.Orchestration.Conversation
import ClawEngine.Persistence.Transactions

/-!
# The operations of a store may be taken as atomic

Where calls of `handle` are interleaved elsewhere, each operation of the store is one step. The
methods of `SQLAlchemySessionStore` are several transactions, and calls are interleaved between
these; but every method takes effect at once, so there is an order of the operations in which the
calls end with the same outcomes and leave the same. What holds of every order of the operations
holds of every order of the transactions.
-/

set_option autoImplicit false

namespace ClawEngine.Orchestration

open ClawEngine.Core ClawEngine.Runtime ClawEngine.Persistence
open ClawEngine.Persistence.SqlAlchemyStore

variable {V σ ε ι Tx : Type} {TxAns : Tx → Type}

/-- A step of `handle`, when the operations of the store are programs over the steps `Tx`. -/
inductive ConvStep (V Tx : Type)
  | store (t : Tx)
  | runTurn (t : TurnArgs V)

/-- The answer to a step. -/
@[reducible] def ConvStep.Ans (TxAns : Tx → Type) : ConvStep V Tx → Type
  | .store t => TxAns t
  | .runTurn _ => Except (Raised V) (AgentRunResult V)

/-- The meaning of the steps over a store and an engine. -/
def stepHandler (H : Handler Tx TxAns σ) (turn : TurnFn V ε) :
    Handler (ConvStep V Tx) (ConvStep.Ans TxAns) (World σ ε)
  | .store t, w => ((H t w.store).1, { w with store := (H t w.store).2 })
  | .runTurn t, w => ((turn t w.engine).1, { w with engine := (turn t w.engine).2 })

/-- A step of the store among all. -/
def storeStep (V : Type) (TxAns : Tx → Type) (t : Tx) :
    Prog (ConvStep V Tx) (ConvStep.Ans TxAns) (TxAns t) := .vis (.store t) .ret

/-- The exceptions of a method as those of `handle`. -/
def lifted {op : StoreOp V} (r : Prog Tx TxAns (Except StoreError op.Res)) :
    Prog (ConvStep V Tx) (ConvStep.Ans TxAns) (Except (Raised V) op.Res) :=
  (r.expand (storeStep V TxAns)).bind fun x => .ret (liftStore x)

/-- The operations of `handle` over their steps; a turn is one step. -/
def stepProg (impl : (op : StoreOp V) → Prog Tx TxAns (Except StoreError op.Res)) :
    (op : ConvOp V) → Prog (ConvStep V Tx) (ConvStep.Ans TxAns) (ConvAns V op)
  | .store op => lifted (impl op)
  | .runTurn t => .vis (.runTurn t) .ret

/-- What is seen of `handle`: the turns it asks, with their answers. -/
def seenTurn : Prog.Answered (ConvOp V) (ConvAns V) →
    Option (TurnArgs V × Except (Raised V) (AgentRunResult V))
  | ⟨.store _, _⟩ => none
  | ⟨.runTurn t, a⟩ => some (t, a)

/-- What is seen of its steps. -/
def seenStep : Prog.Answered (ConvStep V Tx) (ConvStep.Ans TxAns) →
    Option (TurnArgs V × Except (Raised V) (AgentRunResult V))
  | ⟨.store _, _⟩ => none
  | ⟨.runTurn t, a⟩ => some (t, a)

/-- What is left of an operation that has not taken effect. -/
def StepPending (Pending : (op : StoreOp V) → σ → Prog Tx TxAns (Except StoreError op.Res) → Prop) :
    (op : ConvOp V) → World σ ε → Prog (ConvStep V Tx) (ConvStep.Ans TxAns) (ConvAns V op) → Prop
  | .store op, w, q => ∃ r, Pending op w.store r ∧ q = lifted r
  | .runTurn t, _, q => q = .vis (.runTurn t) .ret

variable {S : SessionStore V σ} {H : Handler Tx TxAns σ}
  {impl : (op : StoreOp V) → Prog Tx TxAns (Except StoreError op.Res)}
  {Pending : (op : StoreOp V) → σ → Prog Tx TxAns (Except StoreError op.Res) → Prop}

theorem Settled.lifted {op : StoreOp V} {x : Except StoreError op.Res}
    {r : Prog Tx TxAns (Except StoreError op.Res)} (h : Prog.Settled H unseen x r)
    (turn : TurnFn V ε) :
    Prog.Settled (stepHandler H turn) seenStep (liftStore x) (lifted r) := by
  induction h with
  | ret => exact .ret
  | vis leaves rest ih =>
    refine .vis (fun w => ⟨?_, rfl⟩) fun w => ih w.store
    simp only [stepHandler, leaves]

/-- **Over a store whose methods take effect at once**, the operations of `handle` do. -/
theorem handle_takesEffect (h : TakesEffect S.perform H impl unseen unseen Pending)
    (turn : TurnFn V ε) : TakesEffect (handler S turn) (stepHandler H turn) (stepProg impl) seenTurn
      seenStep (StepPending Pending) where
  start op w := by
    cases op with
    | store op => exact ⟨_, h.start op w.store, rfl⟩
    | runTurn t => rfl
  stable {op w q} other hq := by
    cases op with
    | store op =>
      obtain ⟨r, hr, rfl⟩ := hq
      refine ⟨r, ?_, rfl⟩
      cases other with
      | store other => exact h.stable other hr
      | runTurn t => exact hr
    | runTurn t => exact hq
  answer {op w x} hq := by
    cases op with
    | store op =>
      obtain ⟨r, hr, hx⟩ := hq
      cases r with
      | ret y =>
        cases hx
        refine ⟨?_, rfl⟩
        simp only [handler, (h.answer hr).1]
      | vis o k => cases hx
    | runTurn t => cases hq
  step {op w o k} hq := by
    cases op with
    | store op =>
      obtain ⟨r, hr, hx⟩ := hq
      cases r with
      | ret y => cases hx
      | vis o k =>
        cases hx
        obtain ⟨hstate, -, hpending⟩ | ⟨hstate, -, hsettled⟩ := h.step hr
        · exact .inl ⟨by simp only [stepHandler, hstate], rfl, _, hpending, rfl⟩
        · exact .inr ⟨by simp only [handler, stepHandler, hstate], rfl,
            Settled.lifted hsettled turn⟩
    | runTurn t =>
      cases hq
      exact .inr ⟨rfl, rfl, .ret⟩

variable [DecidableEq ι]

/-- The calls of `handle` over `SQLAlchemySessionStore`, as programs over its transactions, before
their first step. -/
def transactionPool (w : World Db ε) (d : ι → Draws) (c : ι → Call String) :
    Pool ι (ConvStep String Transaction) (ConvStep.Ans Transaction.Ans)
      (Except (Raised String) (AgentRunResult String)) (World Db ε) :=
  .start w fun i => (handle (d i) (c i)).expand (stepProg methodProg)

/-- **Calls over `SQLAlchemySessionStore`, interleaved one transaction at a time**, end as they do
in an order of whole operations, which grows with the schedule; they ask the same turns, are
answered the same, and leave the same. -/
theorem transactions_linearizable (D : Dialect) (turn : TurnFn String ε) (w : World Db ε)
    (d : ι → Draws) (c : ι → Call String) :
    ∃ order : List ι → List ι, order [] = [] ∧
      (∀ l i, ∃ n, order (l ++ [i]) = order l ++ List.replicate n i) ∧
      ∀ l, let p := (transactionPool w d c).run (stepHandler (transact D) turn) l
        let q := (Pool.start w fun i => handle (d i) (c i)).run
          (handler (sqlAlchemySessionStore D) turn) (order l)
        p.shared = q.shared ∧ Pool.seenOf seenStep p.log = Pool.seenOf seenTurn q.log ∧
          ∀ i ∈ l, ∀ out, p.Finished i out → q.Finished i out := by
  obtain ⟨order, h⟩ := (handle_takesEffect (takesEffect D) turn).linearizable w
    fun i => handle (d i) (c i)
  exact ⟨order, h.nil, h.snoc, fun l =>
    ⟨h.shared l, h.seen l, fun i hi out => h.finished l i out hi⟩⟩

end ClawEngine.Orchestration
