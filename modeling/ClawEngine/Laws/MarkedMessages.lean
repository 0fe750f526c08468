import ClawEngine.Laws.ConversationsApart

/-!
# What mark_processed promises

`mark_processed` takes an `IntegrityError` for a row that is there already. The table has two
constraints: the primary key, whose violation is such a row, and the foreign key to the session,
whose violation is no row at all. So a call that returned has marked its message exactly if the
database does not enforce the foreign key or the session is there. The states are those that single
transactions of the store lead to, so those of any interleaving of its calls.
-/

set_option autoImplicit false

namespace ClawEngine.Persistence

open ClawEngine.Core ClawEngine.Orchestration

/-! ## The states of a database -/

/-- The tables after some transactions of the store were committed. -/
inductive Reached {c : Collation} (D : Dialect) : Tables c → Prop
  | empty : Reached D .empty
  | insertSession {db db' : Tables c} (h : Reached D db) (s : Session String)
      (hrow : db.insertSession D s = .ok db') : Reached D db'
  | updateSession {db db' : Tables c} (h : Reached D db) (s : Session String)
      (hrow : db.updateSession D s = .ok db') : Reached D db'
  | insertProcessed {db db' : Tables c} (h : Reached D db) (sid mid : String)
      (hrow : db.insertProcessed D sid mid = .ok db') : Reached D db'

/-- Every processed message is one of a session that is there, if the database enforces that. -/
def ForeignKey {c : Collation} (D : Dialect) (db : Tables c) : Prop :=
  D.enforcesForeignKeys = true → ∀ row ∈ db.processed, c row.1 ∈ db.sessions.map (Session.idWeight c)

section States

variable {c : Collation} {D : Dialect} {db db' : Tables c} {s : Session String} {sid mid : String}

/-- An inserted session is the last row. -/
theorem Tables.insertSession_eq_ok (h : db.insertSession D s = .ok db') :
    ∃ lastActive, db'.sessions = db.sessions ++ [{ s with lastActive }] ∧
      db'.processed = db.processed := by
  unfold Tables.insertSession at h
  cases hrefusal : Db.rowRefusal D s with
  | some e =>
    rw [hrefusal] at h
    cases h
  | none =>
    cases hfloat : D.float s.lastActive with
    | error e =>
      rw [hrefusal, hfloat] at h
      cases h
    | ok lastActive =>
      by_cases hnew : db.New s
      · simp only [hrefusal, hfloat, dif_pos hnew, Except.ok.injEq] at h
        subst h
        exact ⟨lastActive, rfl, rfl⟩
      · simp only [hrefusal, hfloat, dif_neg hnew, reduceCtorEq] at h

/-- An update leaves the ids of the sessions. -/
theorem Tables.updateSession_eq_ok (h : db.updateSession D s = .ok db') :
    db'.sessions.map (Session.idWeight c) = db.sessions.map (Session.idWeight c) ∧
      db'.processed = db.processed := by
  unfold Tables.updateSession at h
  cases hrefusal : Db.updateRefusal D s with
  | some e =>
    rw [hrefusal] at h
    cases h
  | none =>
    by_cases hknown : s.idWeight c ∈ db.sessions.map (Session.idWeight c)
    · cases hfloat : D.float s.lastActive with
      | error e =>
        rw [hrefusal, hfloat] at h
        simp only [if_pos hknown, reduceCtorEq] at h
      | ok lastActive =>
        simp only [hrefusal, hfloat, if_pos hknown, Except.ok.injEq] at h
        subst h
        exact ⟨Tables.map_updatedRows _ (fun _ _ => rfl) _ _ _, rfl⟩
    · simp only [hrefusal, if_neg hknown, Except.ok.injEq] at h
      subst h
      exact ⟨rfl, rfl⟩

/-- A processed message that is inserted was not there, and its session is, if that is enforced. -/
theorem Tables.insertProcessed_eq_ok (h : db.insertProcessed D sid mid = .ok db') :
    (D.enforcesForeignKeys = true → c sid ∈ db.sessions.map (Session.idWeight c)) ∧
      ∃ hlacks, db' = db.addProcessed sid mid hlacks := by
  unfold Tables.insertProcessed at h
  cases hrefusal : D.refusal [sid, mid] [] with
  | some e =>
    rw [hrefusal] at h
    cases h
  | none =>
    by_cases hlacks : db.Lacks sid mid
    · by_cases hforeign : D.enforcesForeignKeys ∧ c sid ∉ db.sessions.map (Session.idWeight c)
      · simp only [hrefusal, dif_pos hlacks, if_pos hforeign, reduceCtorEq] at h
      · simp only [hrefusal, dif_pos hlacks, if_neg hforeign, Except.ok.injEq] at h
        exact ⟨fun henforces => not_not.mp fun hunknown => hforeign ⟨henforces, hunknown⟩,
          hlacks, h.symm⟩
    · simp only [hrefusal, dif_neg hlacks, reduceCtorEq] at h

/-- **The foreign key holds** in every state, where it is enforced. -/
theorem Reached.foreignKey (h : Reached D db) : ForeignKey D db := by
  induction h with
  | empty => exact fun _ row hrow => absurd hrow (List.not_mem_nil)
  | insertSession h s hrow ih =>
    obtain ⟨lastActive, hsessions, hprocessed⟩ := Tables.insertSession_eq_ok hrow
    intro henforces row hmem
    rw [hsessions, List.map_append, List.mem_append]
    exact .inl (ih henforces row (hprocessed ▸ hmem))
  | updateSession h s hrow ih =>
    obtain ⟨hsessions, hprocessed⟩ := Tables.updateSession_eq_ok hrow
    intro henforces row hmem
    rw [hsessions]
    exact ih henforces row (hprocessed ▸ hmem)
  | insertProcessed h sid mid hrow ih =>
    obtain ⟨hknown, hlacks, rfl⟩ := Tables.insertProcessed_eq_ok hrow
    intro henforces row hmem
    rcases List.mem_append.mp hmem with hmem | hmem
    · exact ih henforces row hmem
    · obtain rfl := List.mem_singleton.mp hmem
      exact hknown henforces

/-- The operations of the store lead from such states to such states. -/
theorem Reached.perform (h : Reached D db) (op : StoreOp String) :
    Reached D ((collatedStore c D).perform op db).2 := by
  cases op with
  | getOrCreate uuid a =>
    refine Prog.run_keeps (I := Reached D) _ (fun op db h => ?_) _ h
    cases op with
    | selectSession k => exact h
    | insertSession s =>
      unfold Collated.txHandler
      cases hrow : db.insertSession D s with
      | ok db' => simpa only [hrow] using h.insertSession s hrow
      | error e => simpa only [hrow] using h
  | save s =>
    show Reached D (Collated.save D s db).2
    unfold Collated.save
    cases SqlAlchemyStore.validateSession s with
    | error e => exact h
    | ok u =>
      cases hrow : db.updateSession D s with
      | error e => simpa only [hrow] using h
      | ok db' => simpa only [hrow] using h.updateSession s hrow
  | isProcessed sid mid =>
    show Reached D (Collated.isProcessed D sid mid db).2
    unfold Collated.isProcessed
    cases SqlAlchemyStore.validateMessage sid mid <;> exact h
  | markProcessed sid mid =>
    show Reached D (Collated.markProcessed D sid mid db).2
    unfold Collated.markProcessed
    cases SqlAlchemyStore.validateMessage sid mid with
    | error e => exact h
    | ok u =>
      cases hrow : db.insertProcessed D sid mid with
      | error e => cases e <;> simpa only [hrow] using h
      | ok db' => simpa only [hrow] using h.insertProcessed sid mid hrow

end States

/-! ## What a call that returned has marked -/

section Marked

variable {c : Collation} {D : Dialect} {db db' : Tables c} {sid mid : String}

/-- If `mark_processed` returns, the message is processed. -/
def MarkKept (c : Collation) (D : Dialect) (sid mid : String) (db : Tables c) : Prop :=
  ∀ db', Collated.markProcessed D sid mid db = (.ok (), db') →
    (Collated.isProcessed D sid mid db').1 = .ok true

/-- A row that was added is found. -/
theorem addProcessed_found (h : db.Lacks sid mid) :
    messageWeight c (sid, mid) ∈ (db.addProcessed sid mid h).processed.map (messageWeight c) :=
  List.mem_map.mpr ⟨(sid, mid), List.mem_append_right _ (List.mem_singleton_self _), rfl⟩

/-- **A call that returned has marked its message** exactly if the database could not take the text
at all, does not enforce the foreign key, or has the session. -/
theorem markKept_iff (h : Reached D db)
    (hvalid : SqlAlchemyStore.validateMessage sid mid = .ok ()) :
    MarkKept c D sid mid db ↔ D.refusal [sid, mid] [] ≠ none ∨
      (D.enforcesForeignKeys = true → c sid ∈ db.sessions.map (Session.idWeight c)) := by
  unfold MarkKept Collated.markProcessed
  simp only [hvalid]
  cases hbinds : D.refusal [sid, mid] [] with
  | some e =>
    obtain ⟨message, rfl⟩ := Db.refusal_isColumn hbinds
    have hrow : db.insertProcessed D sid mid = .error (.columnError message) := by
      simp only [Tables.insertProcessed, hbinds]
    simp only [hrow]
    refine ⟨fun _ => .inl (Option.some_ne_none _), fun _ db' hmarked => ?_⟩
    cases hmarked
  | none =>
    by_cases hlacks : db.Lacks sid mid
    · by_cases hforeign : D.enforcesForeignKeys = true ∧ c sid ∉ db.sessions.map (Session.idWeight c)
      · -- The foreign key is violated: the call returns, and there is no row.
        have hrow : db.insertProcessed D sid mid = .error .integrityError := by
          simp only [Tables.insertProcessed, hbinds, dif_pos hlacks, if_pos hforeign]
        simp only [hrow]
        constructor
        · intro hkept
          have hanswer := hkept db rfl
          rw [Collated.isProcessed_eq hvalid hbinds, Except.ok.injEq, decide_eq_true_eq] at hanswer
          exact absurd hanswer hlacks
        · rintro (hrefused | hknown)
          · exact absurd rfl hrefused
          · exact absurd (hknown hforeign.1) hforeign.2
      · have hrow : db.insertProcessed D sid mid = .ok (db.addProcessed sid mid hlacks) := by
          simp only [Tables.insertProcessed, hbinds, dif_pos hlacks, if_neg hforeign]
        simp only [hrow]
        refine ⟨fun _ => .inr fun henforces => ?_, fun _ db' hmarked => ?_⟩
        · exact not_not.mp fun hunknown => hforeign ⟨henforces, hunknown⟩
        · cases hmarked
          rw [Collated.isProcessed_eq hvalid hbinds, decide_eq_true (addProcessed_found hlacks)]
    · -- The row is there already, so its session is.
      have hrow : db.insertProcessed D sid mid = .error .integrityError := by
        simp only [Tables.insertProcessed, hbinds, dif_neg hlacks]
      simp only [hrow]
      refine ⟨fun _ => .inr fun henforces => ?_, fun _ db' hmarked => ?_⟩
      · rw [Tables.Lacks, not_not, List.mem_map] at hlacks
        obtain ⟨row, hrow, hweight⟩ := hlacks
        have hsid : c row.1 = c sid := congrArg Prod.fst hweight
        exact hsid ▸ h.foreignKey henforces row hrow
      · cases hmarked
        rw [Collated.isProcessed_eq hvalid hbinds, decide_eq_true (not_not.mp hlacks)]

/-- A message of a session that is there is marked, on a server that enforces the foreign key. -/
theorem markKept_iff_known :
    MarkKept id mysqlDialect "s1" "m1"
      ((collatedStore id mysqlDialect).perform
        (.getOrCreate "s1" ⟨⟨"w", "feishu", "t"⟩, "codex", 50⟩) .empty).2 :=
  (markKept_iff (Reached.empty.perform _) (by decide +kernel)).mpr (.inr fun _ => by decide +kernel)

/-- A message of a session that is not there: `mark_processed` returns, and `is_processed` says that
it is not. -/
theorem unknown_session_unmarked :
    Reached mysqlDialect (.empty : Tables id) ∧
      SqlAlchemyStore.validateMessage "s1" "m1" = .ok () ∧
      Collated.markProcessed mysqlDialect "s1" "m1" (.empty : Tables id) = (.ok (), .empty) ∧
      (Collated.isProcessed mysqlDialect "s1" "m1" (.empty : Tables id)).1 = .ok false :=
  ⟨.empty, by decide +kernel, rfl, by decide +kernel⟩

end Marked

end ClawEngine.Persistence
