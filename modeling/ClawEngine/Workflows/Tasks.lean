import ClawEngine.Workflows.Updates

/-!
# Tasks on the threads of an executor

`ThreadWorkflowExecutor` of `engine/workflows/executor.py` performs the tasks that `run` submits on
the threads of its pool, any number at once over the one store. A task is `_execute` of one run;
here it is a program over the operations of the store, and the handler in it one over those of its
context, which reports progress. What the clock answers to the thread of a task, and what the
handler's surroundings answer to it, are the task's own.
-/

set_option autoImplicit false

namespace ClawEngine.Workflows

open ClawEngine.Core

variable {V Q ε A : Type}

/-- What a handler does on its thread: it reports progress to its context, and asks its
surroundings. -/
inductive ContextOp (Q : Type)
  | reportProgress (message : String) (step : Option String) (fraction : Option PyFloat)
  | other (question : Q)

/-- What each is answered with, when it does not raise. -/
abbrev ContextOp.Res (V : Type) : ContextOp Q → Type
  | .reportProgress .. => Unit
  | .other _ => V

/-- Programs of handlers. -/
abbrev ContextProg (V Q A : Type) : Type :=
  Prog (ContextOp Q) (fun op => Except WorkflowError (op.Res V)) A

/-- The operation as one of any handler, with the context of a run, and what follows it. -/
def ContextOp.inRun (runId : String) : (op : ContextOp Q) →
    (Except WorkflowError (op.Res V) → HandlerProg V Q A) → HandlerProg V Q A
  | .reportProgress message step fraction, k => .vis (.reportProgress runId message step fraction) k
  | .other question, k => .vis (.other question) k

/-- The program as one over the operations of any handler. -/
def ContextProg.inRun (runId : String) : ContextProg V Q A → HandlerProg V Q A
  | .ret a => .ret a
  | .vis op k => op.inRun runId fun answer => inRun runId (k answer)

/-- A call of `run`, with the id it draws, and what the thread of its task reads. The handlers are
those that end in a value or in an `Exception` whose text can be made (`StoppingHandler` has the
others), and the surroundings are the task's own. -/
structure Task (V Q ε : Type) where
  name : String
  params : Option (Dict String V) := none
  rerunOf : Option String := none
  ownerWorkspaceId : Option String := none
  uuid : String
  handler : Dict String V → ContextProg V Q (Except HandlerError (Option V))
  clock : Nat → PyFloat
  surroundings : ε

namespace Task

variable (answer : Q → ε → V × ε) (t : Task V Q ε)

/-- The record `run` saves. -/
def run : WorkflowRun V :=
  { runId := t.uuid, name := t.name, params := t.params.getD ∅, rerunOf := t.rerunOf
    ownerWorkspaceId := t.ownerWorkspaceId }

/-- One operation of the handler on its thread, where that has read the clock `tick` times. What it
raises is an answer the handler may catch. -/
def performOp : (op : ContextOp Q) → Nat → ε →
    (Except WorkflowError (op.Res V) → Nat → ε → StoreProg V Unit) → StoreProg V Unit
  | .reportProgress message step fraction, tick, e, k =>
    match fraction.filter (!isFraction ·) with
    | some x => k (.error (.fractionOutOfRange x)) tick e
    | none =>
      .vis (.get t.uuid) fun
        | .error exc => k (.error exc) tick e
        | .ok run =>
          .vis (.save (run.withProgress { message, step, fraction, ts := t.clock tick }
            (t.clock (tick + 1)))) fun saved => k saved (tick + 2) e
  | .other question, tick, e, k => k (.ok (answer question e).1) tick (answer question e).2

/-- The handler on its thread; `rest` is what follows its end. -/
def perform (rest : A → Nat → StoreProg V Unit) : ContextProg V Q A → Nat → ε → StoreProg V Unit
  | .ret a, tick, _ => rest a tick
  | .vis op k, tick, e =>
    t.performOp answer op tick e fun answered tick e => perform rest (k answered) tick e

/-- `run` up to `submit`, and `_execute` on the thread. -/
def prog : StoreProg V Unit :=
  .call (.save t.run) fun _ =>
    updateProg t.uuid (·.withStatus .running (t.clock 0)) <|
      .call (.get t.uuid) fun run =>
        t.perform answer (fun outcome tick =>
          updateProg t.uuid (finishWith outcome (t.clock tick)) (.ret (.ok ())))
          (t.handler run.params) 1 t.surroundings

/-- What `WorkflowService` finds where the task is its only one. -/
def world (store : MemoryWorkflowStore V) : WorkflowWorld V ε :=
  { store, ids := fun _ => t.uuid, clock := t.clock, surroundings := t.surroundings }

end Task

end ClawEngine.Workflows
