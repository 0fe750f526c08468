import ClawEngine.Persistence.Lawful

/-!
# What a ledger keeps under one key

Two ledgers agree on a key when they have the same session under it, with the same messages
processed in it. An operation on the key is then answered alike by both, and they go on agreeing; an
operation on another key leaves what is under this one. A store keeps to keys when what it refuses,
and how, depends on no more than that: the three stores do.
-/

set_option autoImplicit false

namespace ClawEngine.Persistence

open ClawEngine.Core ClawEngine.Orchestration

variable {V σ : Type}

namespace Ledger

/-- The operation is on the session of a key. -/
def OnKey (L : Ledger V) (k : Key) : StoreOp V → Prop
  | .getOrCreate _ a => a.key = k
  | .save s => s.key = k
  | .isProcessed sid _ => ∃ s, L.session k = some s ∧ s.sessionId = sid
  | .markProcessed sid _ => ∃ s, L.session k = some s ∧ s.sessionId = sid

/-- The same under a key, and of ids that no session has yet. -/
structure AgreeOn (k : Key) (L L' : Ledger V) : Prop where
  session : L.session k = L'.session k
  processed : ∀ {s}, L.session k = some s → L.processed s.sessionId = L'.processed s.sessionId
  unknown : ∀ {sid}, ¬ L.Knows sid → ¬ L'.Knows sid → L.processed sid = L'.processed sid

section Agree

variable {k k' : Key} {L L' : Ledger V} {op : StoreOp V} {clock : PyFloat → PyFloat} {sid : String}

theorem AgreeOn.refl (k : Key) (L : Ledger V) : AgreeOn k L L := ⟨rfl, fun _ => rfl, fun _ _ => rfl⟩

/-- Nothing is marked under an id that no session has. -/
theorem perform_unknown (hop : L.Allows op) (hsid : ¬ (L.perform clock op).2.Knows sid) :
    (L.perform clock op).2.processed sid = L.processed sid := by
  cases op with
  | getOrCreate uuid a =>
    simp only [perform]
    split <;> rfl
  | save s => rfl
  | isProcessed x y => rfl
  | markProcessed x y =>
    have hne : sid ≠ x := by
      rintro rfl
      exact hsid (Knows.perform hop _)
    funext mid
    simp only [perform, mark, hne, decide_false, Bool.false_and, Bool.or_false]

theorem AgreeOn.unknown_perform (h : AgreeOn k L L') (hop : L.Allows op) (hop' : L'.Allows op)
    (hsid : ¬ (L.perform clock op).2.Knows sid) (hsid' : ¬ (L'.perform clock op).2.Knows sid) :
    (L.perform clock op).2.processed sid = (L'.perform clock op).2.processed sid := by
  rw [perform_unknown hop hsid, perform_unknown hop' hsid']
  exact h.unknown (fun hk => hsid (hk.perform op)) fun hk => hsid' (hk.perform op)

/-- **An operation on the key** is answered alike, and leaves ledgers that agree. -/
theorem AgreeOn.perform (h : AgreeOn k L L') (clock : PyFloat → PyFloat) (hL : L.WF)
    (hL' : L'.WF) (hop : L.Allows op) (hop' : L'.Allows op) (hkey : L.OnKey k op) :
    (L.perform clock op).1 = (L'.perform clock op).1 ∧
      AgreeOn k (L.perform clock op).2 (L'.perform clock op).2 := by
  refine ⟨?_, ?_, ?_, fun hsid hsid' => h.unknown_perform hop hop' hsid hsid'⟩
  · cases op with
    | getOrCreate uuid a =>
      obtain rfl : a.key = k := hkey
      simp only [Ledger.perform, ← h.session]
      split <;> rfl
    | save s => rfl
    | isProcessed x y =>
      obtain ⟨s, hs, rfl⟩ := hkey
      exact congrFun (h.processed hs) y
    | markProcessed x y => rfl
  · cases op with
    | getOrCreate uuid a =>
      obtain rfl : a.key = k := hkey
      simp only [Ledger.perform, ← h.session]
      cases hs : L.session a.key with
      | some s => exact h.session
      | none => simp only [create_session, if_true]
    | save s =>
      obtain rfl : s.key = k := hkey
      simp only [Ledger.perform]
      rw [save_session hL (allows_save_kept.mpr hop), save_session hL' (allows_save_kept.mpr hop'),
        Session.kept_key, if_pos rfl, if_pos rfl]
    | isProcessed x y => exact h.session
    | markProcessed x y => exact h.session
  · cases op with
    | getOrCreate uuid a =>
      obtain rfl : a.key = k := hkey
      simp only [Ledger.perform, ← h.session]
      cases hs : L.session a.key with
      | some s => exact h.processed
      | none =>
        intro s' hs'
        rw [create_session, if_pos rfl] at hs'
        cases hs'
        exact h.unknown hop hop'
    | save s =>
      obtain rfl : s.key = k := hkey
      obtain ⟨x, hx, hid, -⟩ := id hop
      intro y hy
      simp only [Ledger.perform] at hy
      rw [save_session hL (allows_save_kept.mpr hop), Session.kept_key, if_pos rfl] at hy
      cases hy
      have hsame := h.processed hx
      rwa [hid] at hsame
    | isProcessed x y => exact h.processed
    | markProcessed x y =>
      intro s hs
      funext mid
      simp only [Ledger.perform, mark, congrFun (h.processed hs) mid]

/-- **An operation on another key** leaves what is under this one. -/
theorem AgreeOn.frame (h : AgreeOn k L L') (hL : L.WF) (hop : L.Allows op) (hkey : L.OnKey k' op)
    (hne : k' ≠ k) : AgreeOn k (L.perform clock op).2 L' := by
  have hsession : (L.perform clock op).2.session k = L.session k := by
    cases op with
    | getOrCreate uuid a =>
      obtain rfl : a.key = k' := hkey
      simp only [Ledger.perform]
      split
      · rfl
      · rw [create_session, if_neg hne.symm]
    | save s =>
      obtain rfl : s.key = k' := hkey
      simp only [Ledger.perform]
      rw [save_session hL (allows_save_kept.mpr hop), Session.kept_key, if_neg hne.symm]
    | isProcessed x y => rfl
    | markProcessed x y => rfl
  refine ⟨hsession.trans h.session, fun {s} hs => ?_, fun {sid} hsid hsid' => ?_⟩
  · rw [hsession] at hs
    rw [← h.processed hs]
    cases op with
    | getOrCreate uuid a =>
      simp only [Ledger.perform]
      split <;> rfl
    | save x => rfl
    | isProcessed x y => rfl
    | markProcessed x y =>
      obtain ⟨s', hs', rfl⟩ := hkey
      have hids : s.sessionId ≠ s'.sessionId := fun heq => hne (hL.id_inj hs' hs heq.symm)
      funext mid
      simp only [Ledger.perform, mark, hids, decide_false, Bool.false_and, Bool.or_false]
  · rw [perform_unknown hop hsid]
    exact h.unknown (fun hk => hsid (hk.perform op)) hsid'

end Agree

end Ledger

/-! ## Stores that keep to keys -/

/-- What a store refuses of an operation depends on the session of its key alone, and how it
refuses on the operation alone. -/
structure LawfulStore.KeepsToKeys (S : LawfulStore V σ) : Prop where
  accepts : ∀ {L L' : Ledger V} {op},
    (∀ uuid a, op = .getOrCreate uuid a → L.session a.key = L'.session a.key) →
      (S.Accepts L op ↔ S.Accepts L' op)
  refusal : ∀ op, ∃ e, ∀ s, S.Inv s → (S.view s).Allows op → ¬ S.Accepts (S.view s) op →
    (S.ops.perform op s).1 = .error e

theorem memory_keepsToKeys (V : Type) : (memoryLawful V).KeepsToKeys where
  accepts _ := Iff.rfl
  refusal _ := ⟨.integrityError, fun _ _ _ hnot => absurd trivial hnot⟩

/-- What the columns take depends on the session of the key. -/
theorem takes_congr (D : Dialect) {L L' : Ledger String} {op : StoreOp String}
    (h : ∀ uuid a, op = .getOrCreate uuid a → L.session a.key = L'.session a.key) :
    D.Takes L op ↔ D.Takes L' op := by
  cases op with
  | getOrCreate uuid a => simp only [Dialect.Takes, h uuid a rfl]
  | save s => exact Iff.rfl
  | isProcessed sid mid => exact Iff.rfl
  | markProcessed sid mid => exact Iff.rfl

/-- An update that is refused is refused for its values. -/
theorem updateSession_refusal (D : Dialect) (s : Session String) :
    ∃ e, ∀ db : Db, db.ledger.Knows s.sessionId → ¬ D.Takes db.ledger (.save s) →
      db.updateSession D s = .error e := by
  cases hbind : Db.updateRefusal D s with
  | some e =>
    refine ⟨e, fun db _ _ => ?_⟩
    simp only [Db.updateSession, hbind]
  | none =>
    cases hfloat : D.float s.lastActive with
    | error e =>
      refine ⟨e, fun db hknown _ => ?_⟩
      simp only [Db.updateSession, hbind, hfloat, if_pos (Db.ledger_knows.mp hknown)]
    | ok t => exact ⟨.integrityError, fun db _ hnot => absurd ⟨hbind, t, hfloat⟩ hnot⟩

theorem sqlite_keepsToKeys : sqliteLawful.KeepsToKeys where
  accepts := takes_congr .sqlite
  refusal op := by
    cases op with
    | getOrCreate uuid a =>
      have hbind : Dialect.sqlite.refusal
          [a.key.workspaceId, a.key.channel, a.key.externalThreadKey] [] = none := rfl
      cases hrow : Db.rowRefusal .sqlite (Session.create uuid a) with
      | none => exact ⟨.integrityError, fun db _ _ hnot => absurd ⟨hbind, fun _ => hrow⟩ hnot⟩
      | some e =>
        refine ⟨e, fun db _ _ hnot => ?_⟩
        have hs : db.ledger.session a.key = none := by
          by_contra hs
          exact hnot ⟨hbind, fun hnone => absurd hnone hs⟩
        show (SqliteStore.getOrCreate uuid a db).1 = _
        simp only [SqliteStore.getOrCreate, Db.selectSession_of_binds hbind, hs,
          Option.toList_none, Db.insertSession, hrow]
    | save s =>
      obtain ⟨e, he⟩ := updateSession_refusal .sqlite s
      refine ⟨e, fun db _ hop hnot => ?_⟩
      show (SqliteStore.save s db).1 = _
      simp only [SqliteStore.save, he db hop.knows hnot]
    | isProcessed sid mid => exact ⟨.integrityError, fun _ _ _ hnot => absurd rfl hnot⟩
    | markProcessed sid mid => exact ⟨.integrityError, fun _ _ _ hnot => absurd rfl hnot⟩

theorem sqlAlchemy_keepsToKeys (D : Dialect) : (sqlAlchemyLawful D).KeepsToKeys where
  accepts h := and_congr_right fun _ => takes_congr D h
  refusal op := by
    cases op with
    | getOrCreate uuid a =>
      cases hv : SqlAlchemyStore.validateArgs a with
      | error e =>
        refine ⟨e, fun db _ _ _ => ?_⟩
        show (SqlAlchemyStore.getOrCreate D uuid a db).1 = _
        simp only [SqlAlchemyStore.getOrCreate, SqlAlchemyStore.getOrCreateProg, hv, Prog.raise,
          Prog.run_ret]
      | ok u =>
        cases hbind : D.refusal [a.key.workspaceId, a.key.channel, a.key.externalThreadKey] [] with
        | some e =>
          refine ⟨e, fun db _ _ _ => ?_⟩
          exact congrArg Prod.fst (SqlAlchemyStore.getOrCreate_unbound (D := D) hv hbind)
        | none =>
          cases hrow : Db.rowRefusal D (Session.create uuid a) with
          | none =>
            exact ⟨.integrityError, fun db _ _ hnot => absurd ⟨hv, hbind, fun _ => hrow⟩ hnot⟩
          | some e =>
            refine ⟨e, fun db _ _ hnot => ?_⟩
            have hs : db.ledger.session a.key = none := by
              by_contra hs
              exact hnot ⟨hv, hbind, fun hnone => absurd hnone hs⟩
            exact congrArg Prod.fst (SqlAlchemyStore.getOrCreate_refused hv hbind hrow hs)
    | save s =>
      cases hv : SqlAlchemyStore.validateSession s with
      | error e =>
        refine ⟨e, fun db _ _ _ => ?_⟩
        show (SqlAlchemyStore.save D s db).1 = _
        simp only [SqlAlchemyStore.save, hv]
      | ok u =>
        obtain ⟨e, he⟩ := updateSession_refusal D s
        refine ⟨e, fun db _ hop hnot => ?_⟩
        show (SqlAlchemyStore.save D s db).1 = _
        simp only [SqlAlchemyStore.save, hv, he db hop.knows fun htakes => hnot ⟨hv, htakes⟩]
    | isProcessed sid mid =>
      cases hv : SqlAlchemyStore.validateMessage sid mid with
      | error e =>
        refine ⟨e, fun db _ _ _ => ?_⟩
        show (SqlAlchemyStore.isProcessed D sid mid db).1 = _
        simp only [SqlAlchemyStore.isProcessed, hv]
      | ok u =>
        cases hbind : D.refusal [sid, mid] [] with
        | none => exact ⟨.integrityError, fun db _ _ hnot => absurd ⟨hv, hbind⟩ hnot⟩
        | some e =>
          refine ⟨e, fun db _ _ _ => ?_⟩
          show (SqlAlchemyStore.isProcessed D sid mid db).1 = _
          simp only [SqlAlchemyStore.isProcessed, hv, Db.selectProcessed, hbind]
          rfl
    | markProcessed sid mid =>
      cases hv : SqlAlchemyStore.validateMessage sid mid with
      | error e =>
        refine ⟨e, fun db _ _ _ => ?_⟩
        show (SqlAlchemyStore.markProcessed D sid mid db).1 = _
        simp only [SqlAlchemyStore.markProcessed, hv]
      | ok u =>
        cases hbind : D.refusal [sid, mid] [] with
        | none => exact ⟨.integrityError, fun db _ _ hnot => absurd ⟨hv, hbind⟩ hnot⟩
        | some e =>
          refine ⟨e, fun db _ _ _ => ?_⟩
          obtain ⟨message, rfl⟩ := Db.refusal_isColumn hbind
          show (SqlAlchemyStore.markProcessed D sid mid db).1 = _
          simp only [SqlAlchemyStore.markProcessed, hv, Db.insertProcessed, hbind]

end ClawEngine.Persistence
