import ClawEngine.Core.Atomic
import ClawEngine.Persistence.Lawful

/-!
# The transactions of SQLAlchemySessionStore

Every method of `adapters/persistence/sqlalchemy/store.py` as a program over its transactions, one
for each `with` on a connection. The methods run on any number of threads, and between two
transactions of one any number of transactions of the others may run; still each method takes
effect at once. `get_or_create` does so where it finds the row or inserts it; where its insertion
conflicts, the row that is in its way stays there, and the third transaction finds it.
-/

set_option autoImplicit false

namespace ClawEngine.Persistence

open ClawEngine.Core ClawEngine.Orchestration

namespace SqlAlchemyStore

/-- A transaction of one of the methods. -/
inductive Transaction
  | ofCreate (op : TxOp)
  | updateSession (s : Session String)
  | selectProcessed (sid mid : String)
  | insertProcessed (sid mid : String)

/-- What a transaction returns when it does not raise. -/
@[reducible] def Transaction.Res : Transaction → Type
  | .ofCreate op => op.Res
  | .updateSession _ => Unit
  | .selectProcessed _ _ => Option (String × String)
  | .insertProcessed _ _ => Unit

abbrev Transaction.Ans (t : Transaction) : Type := Except StoreError t.Res

/-- The transactions on a database. One that raises is rolled back. -/
def transact (D : Dialect) : Handler Transaction Transaction.Ans Db
  | .ofCreate op, db => txHandler D op db
  | .updateSession s, db =>
    match db.updateSession D s with
    | .ok db' => (.ok (), db')
    | .error e => (.error e, db)
  | .selectProcessed sid mid, db => ((db.selectProcessed D sid mid).bind oneOrNone, db)
  | .insertProcessed sid mid, db =>
    match db.insertProcessed D sid mid with
    | .ok db' => (.ok (), db')
    | .error e => (.error e, db)

/-! ## The methods -/

/-- `save`. -/
def saveProg (s : Session String) : ProgE Transaction Transaction.Res StoreError Unit :=
  match validateSession s with
  | .error e => .raise e
  | .ok () => .call (.updateSession s) fun _ => .ret (.ok ())

/-- `is_processed`. -/
def isProcessedProg (sid mid : String) : ProgE Transaction Transaction.Res StoreError Bool :=
  match validateMessage sid mid with
  | .error e => .raise e
  | .ok () => .call (.selectProcessed sid mid) fun row => .ret (.ok row.isSome)

/-- `mark_processed`: an `IntegrityError` says that the message is there already. -/
def markProcessedProg (sid mid : String) : ProgE Transaction Transaction.Res StoreError Unit :=
  match validateMessage sid mid with
  | .error e => .raise e
  | .ok () => .vis (.insertProcessed sid mid) fun
    | .ok _ => .ret (.ok ())
    | .error .integrityError => .ret (.ok ())
    | .error e => .raise e

/-- A transaction of `get_or_create` among all. -/
def single (op : TxOp) : Prog Transaction Transaction.Ans (TxAns op) := .vis (.ofCreate op) .ret

/-- The method that an operation of the protocol calls. -/
def methodProg : (op : StoreOp String) → Prog Transaction Transaction.Ans (Except StoreError op.Res)
  | .getOrCreate uuid a => (getOrCreateProg uuid a).expand single
  | .save s => saveProg s
  | .isProcessed sid mid => isProcessedProg sid mid
  | .markProcessed sid mid => markProcessedProg sid mid

/-! ## Rows stay -/

variable {D : Dialect} {db db' : Db} {uuid : String} {a : CreateArgs}

/-- A row has the key that a call would create, or the id it drew. -/
def InTheWay (uuid : String) (a : CreateArgs) (db : Db) : Prop :=
  ¬ db.New (Session.create uuid a)

theorem insertSession_inTheWay {s : Session String} (h : InTheWay uuid a db)
    (hinsert : db.insertSession D s = .ok db') : InTheWay uuid a db' := by
  unfold Db.insertSession at hinsert
  split at hinsert
  · cases hinsert
  · split at hinsert
    · cases hinsert
    · split at hinsert
      next hnew =>
        cases hinsert
        refine fun hfree => h ⟨fun hk => hfree.1 ?_, fun hid => hfree.2 ?_⟩
        · exact List.map_subset _ (List.subset_append_left _ _) hk
        · exact List.map_subset _ (List.subset_append_left _ _) hid
      next => cases hinsert

theorem updateSession_inTheWay {s : Session String} (h : InTheWay uuid a db)
    (hupdate : db.updateSession D s = .ok db') : InTheWay uuid a db' := by
  unfold Db.updateSession at hupdate
  split at hupdate
  · cases hupdate
  · split at hupdate
    · split at hupdate
      · cases hupdate
      · cases hupdate
        simpa only [InTheWay, Db.New, Db.setSession, Db.map_key_updatedRows,
          Db.map_sessionId_updatedRows] using h
    · cases hupdate
      exact h

theorem insertProcessed_inTheWay {sid mid : String} (h : InTheWay uuid a db)
    (hinsert : db.insertProcessed D sid mid = .ok db') : InTheWay uuid a db' := by
  unfold Db.insertProcessed at hinsert
  split at hinsert
  · cases hinsert
  · split at hinsert
    · split at hinsert
      · cases hinsert
      · cases hinsert
        exact h
    · cases hinsert

/-- No method takes away what is in the way of a call. -/
theorem perform_inTheWay (h : InTheWay uuid a db) (op : StoreOp String) :
    InTheWay uuid a ((sqlAlchemySessionStore D).perform op db).2 := by
  cases op with
  | getOrCreate uuid' a' =>
    refine Prog.run_keeps (txHandler D) (fun op db hdb => ?_) _ h
    cases op with
    | selectSession k => exact hdb
    | insertSession s =>
      cases hinsert : db.insertSession D s with
      | error e => simpa only [txHandler, hinsert] using hdb
      | ok db' => simpa only [txHandler, hinsert] using insertSession_inTheWay hdb hinsert
  | save s =>
    show InTheWay uuid a (save D s db).2
    unfold save
    split
    · exact h
    · split
      · exact h
      next hupdate => exact updateSession_inTheWay h hupdate
  | isProcessed sid mid =>
    show InTheWay uuid a (isProcessed D sid mid db).2
    unfold isProcessed
    split <;> exact h
  | markProcessed sid mid =>
    show InTheWay uuid a (markProcessed D sid mid db).2
    unfold markProcessed
    split
    · exact h
    · split
      · exact h
      · exact h
      next hinsert => exact insertProcessed_inTheWay h hinsert

/-! ## What is left of a method -/

/-- What is left of a call of `get_or_create` that has not taken effect. -/
inductive CreatePending (D : Dialect) (uuid : String) (a : CreateArgs) (db : Db) : TxProg → Prop
  | begun : CreatePending D uuid a db (getOrCreateProg uuid a)
  | insert (valid : validateArgs a = .ok ())
      (binds : D.refusal [a.key.workspaceId, a.key.channel, a.key.externalThreadKey] [] = none)
      (row : Db.rowRefusal D (Session.create uuid a) = none) :
      CreatePending D uuid a db (tryInsert uuid a)
  | refetch (valid : validateArgs a = .ok ())
      (binds : D.refusal [a.key.workspaceId, a.key.channel, a.key.externalThreadKey] [] = none)
      (row : Db.rowRefusal D (Session.create uuid a) = none) (inTheWay : InTheWay uuid a db) :
      CreatePending D uuid a db (refetch a)

theorem insertSession_blocked (hrow : Db.rowRefusal D (Session.create uuid a) = none)
    (h : InTheWay uuid a db) :
    txHandler D (.insertSession (Session.create uuid a)) db = (.error .integrityError, db) := by
  have hfloat : D.float (Session.create uuid a : Session String).lastActive = .ok (.finite 0) :=
    D.float_zero
  simp only [txHandler, Db.insertSession, hrow, hfloat, dif_neg h]

theorem insertSession_refused {e : StoreError}
    (hrow : Db.rowRefusal D (Session.create uuid a) = some e) (db : Db) :
    txHandler D (.insertSession (Session.create uuid a)) db = (.error e, db) := by
  simp only [txHandler, Db.insertSession, hrow]

/-- A call whose id another row has finds no row and inserts none. -/
theorem getOrCreate_blocked (hv : validateArgs a = .ok ())
    (hbind : D.refusal [a.key.workspaceId, a.key.channel, a.key.externalThreadKey] [] = none)
    (hrow : Db.rowRefusal D (Session.create uuid a) = none)
    (hs : db.ledger.session a.key = none) (h : InTheWay uuid a db) :
    getOrCreate D uuid a db = (.error .sessionNotFound, db) := by
  have hselect := select_answer db hbind
  rw [hs] at hselect
  rw [getOrCreate_new hv hbind hs, tryInsert, Prog.run_vis, insertSession_blocked hrow h, refetch,
    Prog.run_call_ok hselect]
  rfl

/-- Nothing is seen of the operations of a store but what its callers are told. -/
def unseen {Op : Type} {Ans : Op → Type} (_ : Prog.Answered Op Ans) : Option Unit := none

/-- An insertion whose values are refused is refused in every state. -/
theorem tryInsert_settled {e : StoreError}
    (hrow : Db.rowRefusal D (Session.create uuid a) = some e) :
    Prog.Settled (txHandler D) unseen (.error e) (tryInsert uuid a) := by
  refine .vis (fun db => ⟨?_, rfl⟩) fun db => ?_
  · rw [insertSession_refused hrow]
  · rw [insertSession_refused hrow]
    obtain ⟨message, rfl⟩ := Db.refusal_isColumn hrow
    exact .ret

/-- **A transaction of `get_or_create`** leaves the state and the call pending, or the call takes
effect with it. -/
theorem create_step {op : TxOp} {k : TxAns op → TxProg}
    (h : CreatePending D uuid a db (.vis op k)) :
    ((txHandler D op db).2 = db ∧ CreatePending D uuid a db (k (txHandler D op db).1)) ∨
      ((getOrCreate D uuid a db).2 = (txHandler D op db).2 ∧
        Prog.Settled (txHandler D) unseen (getOrCreate D uuid a db).1
          (k (txHandler D op db).1)) := by
  generalize hq : Prog.vis op k = q at h
  cases h with
  | begun =>
    unfold getOrCreateProg at hq
    split at hq
    · cases hq
    next hv =>
      cases hq
      cases hbind : D.refusal [a.key.workspaceId, a.key.channel, a.key.externalThreadKey] [] with
      | some e =>
        have hselect : txHandler D (.selectSession a.key) db = (.error e, db) := by
          simp only [txHandler, Db.selectSession, hbind]
          rfl
        rw [hselect, getOrCreate_unbound hv hbind]
        exact .inr ⟨rfl, .ret⟩
      | none =>
        rw [select_answer db hbind]
        cases hs : db.ledger.session a.key with
        | some s =>
          rw [getOrCreate_found hv hbind hs]
          exact .inr ⟨rfl, .ret⟩
        | none =>
          cases hrow : Db.rowRefusal D (Session.create uuid a) with
          | none => exact .inl ⟨rfl, .insert hv hbind hrow⟩
          | some e =>
            -- the row is refused whatever others do, so the call is as good as raised
            rw [getOrCreate_refused hv hbind hrow hs]
            exact .inr ⟨rfl, tryInsert_settled hrow⟩
  | insert hv hbind hrow =>
    cases hq
    by_cases hnew : db.New (Session.create uuid a)
    · have hs : db.ledger.session a.key = none := (Db.new_iff.mp hnew).1
      rw [getOrCreate_created hv hbind hrow hs hnew]
      simp only [txHandler, Db.insertSession_create hrow hnew]
      exact .inr ⟨trivial, .ret⟩
    · rw [insertSession_blocked hrow hnew]
      exact .inl ⟨rfl, .refetch hv hbind hrow hnew⟩
  | refetch hv hbind hrow hway =>
    cases hq
    rw [select_answer db hbind]
    cases hs : db.ledger.session a.key with
    | some s =>
      rw [getOrCreate_found hv hbind hs]
      exact .inr ⟨rfl, .ret⟩
    | none =>
      rw [getOrCreate_blocked hv hbind hrow hs hway]
      exact .inr ⟨rfl, .ret⟩

/-- A call that asks no transaction is refused by the checks on its arguments. -/
theorem CreatePending.answer {x : Except StoreError (Session String)}
    (h : CreatePending D uuid a db (.ret x)) : getOrCreate D uuid a db = (x, db) := by
  generalize hq : Prog.ret x = q at h
  cases h with
  | begun => rw [getOrCreate, ← hq, Prog.run_ret]
  | insert => cases hq
  | refetch => cases hq

/-- What is left of a method that has not taken effect. -/
def Pending (D : Dialect) : (op : StoreOp String) → Db →
    Prog Transaction Transaction.Ans (Except StoreError op.Res) → Prop
  | .getOrCreate uuid a, db, q => ∃ r, CreatePending D uuid a db r ∧ q = r.expand single
  | op, _, q => q = methodProg op

theorem Settled.single {x : Except StoreError (Session String)} {r : TxProg}
    (h : Prog.Settled (txHandler D) unseen x r) :
    Prog.Settled (transact D) unseen x (r.expand single) := by
  induction h with
  | ret => exact .ret
  | vis leaves rest ih => exact .vis leaves ih

/-- **Every method takes effect at once.** -/
theorem takesEffect (D : Dialect) :
    TakesEffect (sqlAlchemySessionStore D).perform (transact D) methodProg unseen unseen
      (Pending D) where
  start op db := by
    cases op with
    | getOrCreate uuid a => exact ⟨_, .begun, rfl⟩
    | _ => rfl
  stable {op db q} other h := by
    cases op with
    | getOrCreate uuid a =>
      obtain ⟨r, hr, rfl⟩ := h
      refine ⟨r, ?_, rfl⟩
      cases hr with
      | begun => exact .begun
      | insert hv hbind hrow => exact .insert hv hbind hrow
      | refetch hv hbind hrow hway =>
        exact .refetch hv hbind hrow (perform_inTheWay hway other)
    | _ => exact h
  answer {op db x} h := by
    cases op with
    | getOrCreate uuid a =>
      obtain ⟨r, hr, hx⟩ := h
      cases r with
      | ret y =>
        cases hx
        exact ⟨hr.answer, rfl⟩
      | vis o k => cases hx
    | save s =>
      have hprog : saveProg s = .ret x := Eq.symm h
      cases hv : validateSession s with
      | error e =>
        simp only [saveProg, hv, Prog.raise, Prog.ret.injEq] at hprog
        subst hprog
        refine ⟨?_, rfl⟩
        simp only [SessionStore.perform, sqlAlchemySessionStore, save, hv]
      | ok u =>
        simp only [saveProg, hv, Prog.call, reduceCtorEq] at hprog
    | isProcessed sid mid =>
      have hprog : isProcessedProg sid mid = .ret x := Eq.symm h
      cases hv : validateMessage sid mid with
      | error e =>
        simp only [isProcessedProg, hv, Prog.raise, Prog.ret.injEq] at hprog
        subst hprog
        refine ⟨?_, rfl⟩
        simp only [SessionStore.perform, sqlAlchemySessionStore, isProcessed, hv]
      | ok u =>
        simp only [isProcessedProg, hv, Prog.call, reduceCtorEq] at hprog
    | markProcessed sid mid =>
      have hprog : markProcessedProg sid mid = .ret x := Eq.symm h
      cases hv : validateMessage sid mid with
      | error e =>
        simp only [markProcessedProg, hv, Prog.raise, Prog.ret.injEq] at hprog
        subst hprog
        refine ⟨?_, rfl⟩
        simp only [SessionStore.perform, sqlAlchemySessionStore, markProcessed, hv]
      | ok u =>
        simp only [markProcessedProg, hv, reduceCtorEq] at hprog
  step {op db o k} h := by
    cases op with
    | getOrCreate uuid a =>
      obtain ⟨r, hr, hx⟩ := h
      cases r with
      | ret y => cases hx
      | vis o k =>
        cases hx
        obtain ⟨hstate, hpending⟩ | ⟨hstate, hsettled⟩ := create_step hr
        · exact .inl ⟨hstate, rfl, _, hpending, rfl⟩
        · exact .inr ⟨hstate, rfl, Settled.single hsettled⟩
    | save s =>
      have hprog : saveProg s = .vis o k := Eq.symm h
      cases hv : validateSession s with
      | error e => simp only [saveProg, hv, Prog.raise, reduceCtorEq] at hprog
      | ok u =>
        simp only [saveProg, hv] at hprog
        cases hprog
        refine .inr ?_
        simp only [SessionStore.perform, sqlAlchemySessionStore, save, hv, transact]
        cases db.updateSession D s <;> exact ⟨rfl, rfl, .ret⟩
    | isProcessed sid mid =>
      have hprog : isProcessedProg sid mid = .vis o k := Eq.symm h
      cases hv : validateMessage sid mid with
      | error e => simp only [isProcessedProg, hv, Prog.raise, reduceCtorEq] at hprog
      | ok u =>
        simp only [isProcessedProg, hv] at hprog
        cases hprog
        refine .inr ?_
        simp only [SessionStore.perform, sqlAlchemySessionStore, isProcessed, hv, transact]
        cases (db.selectProcessed D sid mid).bind oneOrNone <;> exact ⟨trivial, rfl, .ret⟩
    | markProcessed sid mid =>
      have hprog : markProcessedProg sid mid = .vis o k := Eq.symm h
      cases hv : validateMessage sid mid with
      | error e => simp only [markProcessedProg, hv, Prog.raise, reduceCtorEq] at hprog
      | ok u =>
        simp only [markProcessedProg, hv] at hprog
        cases hprog
        refine .inr ?_
        simp only [SessionStore.perform, sqlAlchemySessionStore, markProcessed, hv, transact]
        cases db.insertProcessed D sid mid with
        | ok db' => exact ⟨rfl, rfl, .ret⟩
        | error e => cases e <;> exact ⟨rfl, rfl, .ret⟩

end SqlAlchemyStore

end ClawEngine.Persistence
