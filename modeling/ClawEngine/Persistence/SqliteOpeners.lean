import ClawEngine.Core.Transition
import ClawEngine.Persistence.SqliteStore
import Mathlib.Logic.Function.Basic

/-!
# Several stores on one database file

`SqliteSessionStore.get_or_create`, one SQL statement at a time. Each store has a connection of its
own, with the transactions that `sqlite3` opens: `INSERT` begins one and takes the file's write lock
before it looks at the constraints, `commit` ends it. Rows that a connection has not committed are
seen by that connection only, and another connection's `INSERT` waits until the lock is free. An
`INSERT` that raises leaves its transaction open and the lock taken.

The ids come from `ids`, one after another.
-/

set_option autoImplicit false

namespace ClawEngine.Persistence.SqliteStore

open ClawEngine.Core ClawEngine.Orchestration

variable {κ : Type}

/-- Where the call of a store is: the statement it executes next. -/
inductive OpenerStage
  | idle
  | selecting (a : CreateArgs)
  | inserting (uuid : String) (a : CreateArgs)
  | committing (uuid : String) (a : CreateArgs)

/-- A call that ended, and what it returned or raised. -/
structure Answered where
  args : CreateArgs
  answer : Except StoreError (Session String)

/-- The file, the connection that has the write lock with its uncommitted database, and the stores
`κ` with their calls. -/
structure SharedFile (κ : Type) where
  file : Db
  writer : Option (κ × Db) := none
  stages : κ → OpenerStage := fun _ => .idle
  drawn : Nat := 0
  answered : List Answered := []

/-- What a store does next. -/
inductive OpenerAction (κ : Type)
  | call (i : κ) (a : CreateArgs)
  | statement (i : κ)

section Steps

variable [DecidableEq κ]

namespace SharedFile

/-- The database that a connection sees. -/
def view (w : SharedFile κ) (i : κ) : Db :=
  match w.writer with
  | some (j, pending) => if j = i then pending else w.file
  | none => w.file

/-- Another connection has the write lock. -/
def lockedFor (w : SharedFile κ) (i : κ) : Bool :=
  match w.writer with
  | some (j, _) => !decide (j = i)
  | none => false

/-- The store goes on to another statement. -/
def goTo (w : SharedFile κ) (i : κ) (stage : OpenerStage) : SharedFile κ :=
  { w with stages := Function.update w.stages i stage }

/-- The call of the store ends. -/
def answer (w : SharedFile κ) (i : κ) (a : CreateArgs)
    (answer : Except StoreError (Session String)) : SharedFile κ :=
  { w.goTo i .idle with answered := w.answered ++ [⟨a, answer⟩] }

/-- `SELECT`, and `uuid.uuid4()` where there is no row. -/
def select (ids : Nat → String) (w : SharedFile κ) (i : κ) (a : CreateArgs) : SharedFile κ :=
  match (w.view i).selectSession .sqlite a.key with
  | .error e => w.answer i a (.error e)
  | .ok (row :: _) => w.answer i a (.ok row)
  | .ok [] => { w.goTo i (.inserting (ids w.drawn) a) with drawn := w.drawn + 1 }

/-- `INSERT`. Values that cannot be bound are refused before the lock is taken. -/
def insert (w : SharedFile κ) (i : κ) (uuid : String) (a : CreateArgs) : SharedFile κ :=
  match (w.view i).insertSession .sqlite (Session.create uuid a) with
  | .error .integrityError =>
    { w.answer i a (.error .integrityError) with writer := some (i, w.view i) }
  | .error e => w.answer i a (.error e)
  | .ok pending => { w.goTo i (.committing uuid a) with writer := some (i, pending) }

/-- `commit()`, after which the call returns its session. -/
def commit (w : SharedFile κ) (i : κ) (uuid : String) (a : CreateArgs) : SharedFile κ :=
  let returned := w.answer i a (.ok (Session.create uuid a))
  match w.writer with
  | some (j, pending) => if j = i then { returned with file := pending, writer := none } else returned
  | none => returned

/-- The next statement of the call of store `i`; none if there is no call, or the statement waits. -/
def statement (ids : Nat → String) (i : κ) (w : SharedFile κ) : Option (SharedFile κ) :=
  match w.stages i with
  | .idle => none
  | .selecting a => some (w.select ids i a)
  | .inserting uuid a => if w.lockedFor i then none else some (w.insert i uuid a)
  | .committing uuid a => some (w.commit i uuid a)

/-- One step of one store. -/
def step (ids : Nat → String) : OpenerAction κ → SharedFile κ → Option (SharedFile κ)
  | .call i a, w =>
    match w.stages i with
    | .idle => some (w.goTo i (.selecting a))
    | _ => none
  | .statement i, w => w.statement ids i

end SharedFile

end Steps

end ClawEngine.Persistence.SqliteStore
