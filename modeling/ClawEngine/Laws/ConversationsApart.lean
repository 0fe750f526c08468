import ClawEngine.Laws.SessionIdentity
import ClawEngine.Persistence.Collation

/-!
# Conversations apart

Two conversations have different natural keys. A server keeps them apart exactly if it does not give
their keys one weight: the rows of its session table are the keys that were asked for, one row a
weight, and `get_or_create` answers with the row of the key's weight. So, of the keys asked for in a
run, each has a session of its own exactly if no two have one weight; and marking a message marks
those of its weight. SQLite and PostgreSQL compare the texts themselves and keep everything apart.
-/

set_option autoImplicit false

namespace ClawEngine.Persistence

open ClawEngine.Core ClawEngine.Orchestration

/-! ## Keys and rows -/

/-- Every session that was returned carries the key it was asked for, and different keys were given
different sessions. -/
structure ConversationsApart (returned : List (Returned String)) : Prop where
  own_key : ∀ {x}, x ∈ returned → x.2.key = x.1.key
  own_id : ∀ {x y}, x ∈ returned → y ∈ returned → x.1.key ≠ y.1.key →
    x.2.sessionId ≠ y.2.sessionId

/-- The server tells the keys that were asked for apart. -/
def KeysSeparated (c : Collation) (returned : List (Returned String)) : Prop :=
  ∀ x ∈ returned, ∀ y ∈ returned, x.1.key.weight c = y.1.key.weight c → x.1.key = y.1.key

instance (c : Collation) (returned : List (Returned String)) :
    Decidable (KeysSeparated c returned) :=
  inferInstanceAs (Decidable (∀ x ∈ returned, ∀ y ∈ returned,
    x.1.key.weight c = y.1.key.weight c → x.1.key = y.1.key))

/-- The rows of the session table are the sessions that were returned, each under the weight it was
asked for by, and each with a key that was asked for. -/
structure Tables.Stores {c : Collation} (db : Tables c) (returned : List (Returned String)) :
    Prop where
  row : ∀ {x}, x ∈ returned → ∃ s ∈ db.sessions, s.sessionId = x.2.sessionId ∧ s.key = x.2.key ∧
    s.keyWeight c = x.1.key.weight c
  asked : ∀ {s}, s ∈ db.sessions → ∃ x ∈ returned, x.1.key = s.key

namespace Tables

variable {c : Collation} {db : Tables c} {returned : List (Returned String)}

theorem eq_of_keyWeight {s t : Session String} (hs : s ∈ db.sessions) (ht : t ∈ db.sessions)
    (h : s.keyWeight c = t.keyWeight c) : s = t :=
  List.inj_on_of_nodup_map db.naturalKey hs ht h

theorem eq_of_sessionId {s t : Session String} (hs : s ∈ db.sessions) (ht : t ∈ db.sessions)
    (h : s.sessionId = t.sessionId) : s = t :=
  List.inj_on_of_nodup_map db.primaryKey hs ht (congrArg c h)

/-- **Conversations are apart exactly if the server tells their keys apart.** -/
theorem Stores.apart_iff (h : db.Stores returned) :
    ConversationsApart returned ↔ KeysSeparated c returned := by
  constructor
  · intro hapart x hx y hy hweight
    by_contra hne
    obtain ⟨s, hs, hsid, -, hsw⟩ := h.row hx
    obtain ⟨t, ht, htid, -, htw⟩ := h.row hy
    obtain rfl := eq_of_keyWeight hs ht (hsw.trans (hweight.trans htw.symm))
    exact hapart.own_id hx hy hne (hsid.symm.trans htid)
  · intro hsep
    have hown : ∀ {x}, x ∈ returned → x.2.key = x.1.key := by
      intro x hx
      obtain ⟨s, hs, -, hkey, hweight⟩ := h.row hx
      obtain ⟨y, hy, hyk⟩ := h.asked hs
      have hsame : y.1.key.weight c = x.1.key.weight c := by rw [hyk]; exact hweight
      rw [← hkey, ← hyk]
      exact hsep y hy x hx hsame
    refine ⟨hown, fun {x y} hx hy hne hid => hne ?_⟩
    obtain ⟨s, hs, hsid, hsk, -⟩ := h.row hx
    obtain ⟨t, ht, htid, htk, -⟩ := h.row hy
    obtain rfl := eq_of_sessionId hs ht (hsid.trans (hid.trans htid.symm))
    rw [← hown hx, ← hown hy, ← hsk, htk]

/-- Where the rows have distinct weights, a lookup finds at most one. -/
theorem filter_weight {A B : Type} [DecidableEq B] {f : A → B} {l : List A} (h : (l.map f).Nodup)
    (b : B) : (l.filter (f · = b) = [] ∧ b ∉ l.map f) ∨
      ∃ x ∈ l, f x = b ∧ l.filter (f · = b) = [x] := by
  have hnodup : ((l.filter (f · = b)).map f).Nodup := h.sublist (List.filter_sublist.map f)
  have hweight : ∀ x ∈ l.filter (f · = b), x ∈ l ∧ f x = b := by
    intro x hx
    exact (List.mem_filter.mp hx).imp_right of_decide_eq_true
  cases hrows : l.filter (f · = b) with
  | nil =>
    refine .inl ⟨rfl, fun hmem => ?_⟩
    obtain ⟨x, hx, hxb⟩ := List.mem_map.mp hmem
    exact List.filter_eq_nil_iff.mp hrows x hx (decide_eq_true hxb)
  | cons x rows =>
    rw [hrows] at hnodup hweight
    obtain ⟨hx, hxb⟩ := hweight x List.mem_cons_self
    cases rows with
    | nil => exact .inr ⟨x, hx, hxb, rfl⟩
    | cons y rows =>
      have hy := (hweight y (List.mem_cons_of_mem _ List.mem_cons_self)).2
      have hne : f x ∉ (y :: rows).map f := (List.nodup_cons.mp hnodup).1
      refine absurd ?_ hne
      rw [hxb, ← hy]
      exact List.mem_map_of_mem List.mem_cons_self

theorem Stores.empty : (Tables.empty : Tables c).Stores [] where
  row h := by cases h
  asked h := by cases h

/-- A row that is there is returned. -/
theorem Stores.again (h : db.Stores returned) {a : CreateArgs} {s : Session String}
    (hs : s ∈ db.sessions) (hweight : s.keyWeight c = a.key.weight c) :
    db.Stores (returned ++ [(a, s)]) where
  row := by
    intro x hx
    rcases List.mem_append.mp hx with hx | hx
    · exact h.row hx
    · rw [List.mem_singleton.mp hx]
      exact ⟨s, hs, rfl, rfl, hweight⟩
  asked := by
    intro t ht
    obtain ⟨x, hx, hk⟩ := h.asked ht
    exact ⟨x, List.mem_append_left _ hx, hk⟩

/-- A new row is returned. -/
theorem Stores.create (h : db.Stores returned) {uuid : String} {a : CreateArgs}
    (hnew : db.New (Session.create uuid a)) :
    (db.addSession (Session.create uuid a) hnew).Stores
      (returned ++ [(a, Session.create uuid a)]) where
  row := by
    intro x hx
    rcases List.mem_append.mp hx with hx | hx
    · obtain ⟨s, hs, hrest⟩ := h.row hx
      exact ⟨s, List.mem_append_left _ hs, hrest⟩
    · rw [List.mem_singleton.mp hx]
      exact ⟨_, List.mem_append_right _ (List.mem_singleton_self _), rfl, rfl, rfl⟩
  asked := by
    intro s hs
    rcases List.mem_append.mp hs with hs | hs
    · obtain ⟨x, hx, hk⟩ := h.asked hs
      exact ⟨x, List.mem_append_left _ hx, hk⟩
    · rw [List.mem_singleton.mp hs]
      exact ⟨_, List.mem_append_right _ (List.mem_singleton_self _), rfl⟩

/-- Rows with the ids and keys of the old ones. -/
theorem Stores.congr (h : db.Stores returned) {db' : Tables c}
    (hrows : db'.sessions.map (fun s => (s.sessionId, s.key)) =
      db.sessions.map (fun s => (s.sessionId, s.key))) : db'.Stores returned where
  row := by
    intro x hx
    obtain ⟨s, hs, hid, hkey, hweight⟩ := h.row hx
    have hmem : (s.sessionId, s.key) ∈ db'.sessions.map fun s => (s.sessionId, s.key) := by
      rw [hrows]
      exact List.mem_map_of_mem hs
    obtain ⟨t, ht, heq⟩ := List.mem_map.mp hmem
    obtain ⟨htid, htk⟩ := Prod.mk.inj heq
    refine ⟨t, ht, htid.trans hid, htk.trans hkey, ?_⟩
    rw [Session.keyWeight, htk]
    exact hweight
  asked := by
    intro t ht
    have hmem : (t.sessionId, t.key) ∈ db.sessions.map fun s => (s.sessionId, s.key) := by
      rw [← hrows]
      exact List.mem_map_of_mem ht
    obtain ⟨s, hs, heq⟩ := List.mem_map.mp hmem
    obtain ⟨x, hx, hk⟩ := h.asked hs
    exact ⟨x, hx, hk.trans (Prod.mk.inj heq).2⟩

end Tables

/-! ## The operations -/

namespace Collated

open SqlAlchemyStore

variable {c : Collation} {D : Dialect} {db : Tables c} {uuid : String} {a : CreateArgs}

/-- A lookup raises, finds no row, or finds one of the key's weight. -/
theorem select_cases (D : Dialect) (k : Key) (db : Tables c) :
    (∃ e, txHandler c D (.selectSession k) db = (.error e, db)) ∨
      txHandler c D (.selectSession k) db = (.ok none, db) ∨
      ∃ s ∈ db.sessions, s.keyWeight c = k.weight c ∧
        txHandler c D (.selectSession k) db = (.ok (some s), db) := by
  simp only [txHandler, Tables.selectSession]
  cases D.refusal [k.workspaceId, k.channel, k.externalThreadKey] [] with
  | some e => exact .inl ⟨e, rfl⟩
  | none =>
    cases hrows : db.sessions.filter (·.keyWeight c = k.weight c) with
    | nil => exact .inr (.inl rfl)
    | cons s rows =>
      cases rows with
      | nil =>
        have hs : s ∈ db.sessions.filter (·.keyWeight c = k.weight c) :=
          hrows ▸ List.mem_singleton_self s
        obtain ⟨hmem, hweight⟩ := List.mem_filter.mp hs
        exact .inr (.inr ⟨s, hmem, of_decide_eq_true hweight, rfl⟩)
      | cons t rows => exact .inl ⟨_, rfl⟩

/-- The re-fetch after a failed insertion. -/
theorem refetch_cases (a : CreateArgs) (db : Tables c) :
    (∃ e, (refetch a).run (txHandler c D) db = (.error e, db)) ∨
      ∃ s ∈ db.sessions, s.keyWeight c = a.key.weight c ∧
        (refetch a).run (txHandler c D) db = (.ok s, db) := by
  unfold refetch
  rcases select_cases D a.key db with ⟨e, h⟩ | h | ⟨s, hs, hweight, h⟩
  · exact .inl ⟨e, Prog.run_call_error h _⟩
  · refine .inl ⟨.sessionNotFound, ?_⟩
    rw [Prog.run_call_ok h]
    rfl
  · refine .inr ⟨s, hs, hweight, ?_⟩
    rw [Prog.run_call_ok h]
    rfl

/-- The insertion raises and changes nothing, or adds the row. -/
theorem insert_cases (D : Dialect) (uuid : String) (a : CreateArgs) (db : Tables c) :
    (∃ e, txHandler c D (.insertSession (Session.create uuid a)) db = (.error e, db)) ∨
      ∃ hnew : db.New (Session.create uuid a),
        txHandler c D (.insertSession (Session.create uuid a)) db =
          (.ok (), db.addSession (Session.create uuid a) hnew) := by
  have hfloat : D.float (Session.create uuid a : Session String).lastActive = .ok (.finite 0) :=
    D.float_zero
  simp only [txHandler, Tables.insertSession, hfloat]
  cases Db.rowRefusal D (Session.create uuid a) with
  | some e => exact .inl ⟨e, rfl⟩
  | none =>
    dsimp only
    split
    · next db' heq =>
      split at heq
      · next hnew =>
        cases heq
        exact .inr ⟨hnew, rfl⟩
      · cases heq
    · next e heq => exact .inl ⟨e, rfl⟩

/-- **What `get_or_create` can do**: raise, answer with a row of the key's weight, or create. -/
theorem getOrCreate_cases (D : Dialect) (uuid : String) (a : CreateArgs) (db : Tables c) :
    (∃ e, getOrCreate D uuid a db = (.error e, db)) ∨
      (∃ s ∈ db.sessions, s.keyWeight c = a.key.weight c ∧
        getOrCreate D uuid a db = (.ok s, db)) ∨
      ∃ hnew : db.New (Session.create uuid a),
        getOrCreate D uuid a db = (.ok (Session.create uuid a), db.addSession _ hnew) := by
  unfold getOrCreate getOrCreateProg
  cases validateArgs a with
  | error e => exact .inl ⟨e, rfl⟩
  | ok u =>
    dsimp only [lookup]
    rcases select_cases D a.key db with ⟨e, h⟩ | h | ⟨s, hs, hweight, h⟩
    · exact .inl ⟨e, Prog.run_call_error h _⟩
    · rw [Prog.run_call_ok h]
      dsimp only [tryInsert]
      rw [Prog.run_vis]
      rcases insert_cases D uuid a db with ⟨e, h⟩ | ⟨hnew, h⟩
      · rw [h]
        by_cases he : e = .integrityError
        · subst he
          rcases refetch_cases (D := D) a db with ⟨e, h⟩ | ⟨s, hs, hweight, h⟩
          · exact .inl ⟨e, h⟩
          · exact .inr (.inl ⟨s, hs, hweight, h⟩)
        · refine .inl ⟨e, ?_⟩
          cases e <;> first | rfl | exact absurd rfl he
      · refine .inr (.inr ⟨hnew, ?_⟩)
        rw [h]
        rfl
    · refine .inr (.inl ⟨s, hs, hweight, ?_⟩)
      rw [Prog.run_call_ok h]
      rfl

/-- A save keeps ids and keys. -/
theorem save_rows (D : Dialect) (s : Session String) (db : Tables c) :
    (save D s db).2.sessions.map (fun s => (s.sessionId, s.key)) =
      db.sessions.map (fun s => (s.sessionId, s.key)) := by
  unfold save
  split
  · rfl
  · split
    · rfl
    · next db' heq =>
      unfold Tables.updateSession at heq
      split at heq
      · cases heq
      · split at heq
        · split at heq
          · cases heq
          · cases heq
            exact Tables.map_updatedRows _ (fun _ _ => rfl) ..
        · cases heq
          rfl

theorem markProcessed_sessions (D : Dialect) (sid mid : String) (db : Tables c) :
    (markProcessed D sid mid db).2.sessions = db.sessions := by
  unfold markProcessed
  split
  · rfl
  · split
    · rfl
    · rfl
    · next db' heq =>
      unfold Tables.insertProcessed at heq
      split at heq
      · cases heq
      · split at heq
        · split at heq
          · cases heq
          · cases heq
            rfl
        · cases heq

theorem isProcessed_snd (D : Dialect) (sid mid : String) (db : Tables c) :
    (isProcessed D sid mid db).2 = db := by
  unfold isProcessed
  split <;> rfl

/-- **Every step leaves the returned sessions stored.** -/
theorem stores_step {t t' : Tracked String (Tables c)} {op : StoreOp String}
    (h : t.store.Stores t.returned) (hstep : trackedStep (collatedStore c D) op t = some t') :
    t'.store.Stores t'.returned := by
  obtain ⟨-, rfl⟩ := trackedStep_eq_some.mp hstep
  cases op with
  | getOrCreate uuid a =>
    simp only [SessionStore.perform, collatedStore]
    rcases getOrCreate_cases D uuid a t.store with ⟨e, heq⟩ | ⟨s, hs, hweight, heq⟩ | ⟨hnew, heq⟩
    · rw [heq]
      exact h
    · rw [heq]
      exact h.again hs hweight
    · rw [heq]
      exact h.create hnew
  | save s => exact h.congr (save_rows D s t.store)
  | isProcessed sid mid =>
    have hsnd := isProcessed_snd D sid mid t.store
    refine h.congr ?_
    exact congrArg (fun db : Tables c => db.sessions.map fun s => (s.sessionId, s.key)) hsnd
  | markProcessed sid mid =>
    have hsessions := markProcessed_sessions D sid mid t.store
    refine h.congr ?_
    exact congrArg (List.map fun s : Session String => (s.sessionId, s.key)) hsessions

/-- **A call returns** whose fields are valid, whose values the columns take, and whose id has a
weight of its own. -/
theorem getOrCreate_returns (hv : validateArgs a = .ok ())
    (hbind : D.refusal [a.key.workspaceId, a.key.channel, a.key.externalThreadKey] [] = none)
    (hrow : Db.rowRefusal D (Session.create uuid a) = none)
    (hid : c uuid ∉ db.sessions.map (Session.idWeight c)) :
    ∃ s, (getOrCreate D uuid a db).1 = .ok s := by
  have hfloat : D.float (Session.create uuid a : Session String).lastActive = .ok (.finite 0) :=
    D.float_zero
  have hselect : txHandler c D (.selectSession a.key) db =
      ((Except.ok (db.sessions.filter (·.keyWeight c = a.key.weight c))).bind oneOrNone, db) := by
    simp only [txHandler, Tables.selectSession, hbind]
  simp only [getOrCreate, getOrCreateProg, hv, lookup]
  rcases Tables.filter_weight db.naturalKey (a.key.weight c) with ⟨hrows, hkey⟩ | ⟨s, -, -, hrows⟩
  · rw [hrows] at hselect
    have hnone : txHandler c D (.selectSession a.key) db = (.ok none, db) := hselect
    have hinsert : txHandler c D (.insertSession (Session.create uuid a)) db =
        (.ok (), db.addSession (Session.create uuid a) ⟨hkey, hid⟩) := by
      simp only [txHandler, Tables.insertSession, hrow, hfloat]
      rw [dif_pos ⟨hkey, hid⟩]
      rfl
    rw [Prog.run_call_ok hnone]
    simp only [tryInsert, Prog.run_vis, hinsert, Prog.run_ret]
    exact ⟨_, rfl⟩
  · rw [hrows] at hselect
    have hsome : txHandler c D (.selectSession a.key) db = (.ok (some s), db) := hselect
    rw [Prog.run_call_ok hsome, Prog.run_ret]
    exact ⟨s, rfl⟩

/-! ## Messages -/

/-- The answer about a message: whether a row has its weight. -/
theorem isProcessed_eq {sid mid : String} (hv : validateMessage sid mid = .ok ())
    (hbind : D.refusal [sid, mid] [] = none) (db : Tables c) :
    (isProcessed D sid mid db).1 =
      .ok (decide (messageWeight c (sid, mid) ∈ db.processed.map (messageWeight c))) := by
  simp only [isProcessed, hv, Tables.selectProcessed, hbind]
  rcases Tables.filter_weight db.processedKey (messageWeight c (sid, mid)) with
    ⟨hrows, hmem⟩ | ⟨row, hrow, hweight, hrows⟩
  · rw [hrows, decide_eq_false hmem]
    rfl
  · rw [hrows, decide_eq_true (List.mem_map.mpr ⟨row, hrow, hweight⟩)]
    rfl

/-- A mark of a session that exists leaves the weights with that of the message. -/
theorem markProcessed_weights {sid mid : String} (hv : validateMessage sid mid = .ok ())
    (hbind : D.refusal [sid, mid] [] = none)
    (hknown : c sid ∈ db.sessions.map (Session.idWeight c)) (row : String × String) :
    row ∈ (markProcessed D sid mid db).2.processed.map (messageWeight c) ↔
      row ∈ db.processed.map (messageWeight c) ∨ row = messageWeight c (sid, mid) := by
  have hforeign : ¬ (D.enforcesForeignKeys ∧ c sid ∉ db.sessions.map (Session.idWeight c)) :=
    fun h => h.2 hknown
  by_cases hmem : db.Lacks sid mid
  case neg =>
    have hinsert : db.insertProcessed D sid mid = .error .integrityError := by
      simp only [Tables.insertProcessed, hbind, dif_neg hmem]
    simp only [markProcessed, hv, hinsert]
    refine ⟨.inl, fun h => h.elim id fun heq => ?_⟩
    rw [heq]
    exact not_not.mp hmem
  case pos =>
    have hinsert : db.insertProcessed D sid mid = .ok (db.addProcessed sid mid hmem) := by
      simp only [Tables.insertProcessed, hbind, dif_pos hmem, if_neg hforeign]
    simp only [markProcessed, hv, hinsert, Tables.addProcessed, List.map_append, List.mem_append,
      List.map_singleton, List.mem_singleton]

end Collated

/-! ## The dialects of the constructor -/

section Dialects

open Collated SqlAlchemyStore

/-- **Conversations are kept apart as far as the server tells texts apart.** In every state that a
run reaches: the keys asked for have sessions of their own exactly if no two of them have one
weight; a mark of one message marks another exactly if the two have one weight; a call with valid
fields and a new id returns; and outside MySQL different texts have different weights. -/
theorem conversations_apart (mysql : Collation) (scheme : Scheme) (D : Dialect)
    (ops : List (StoreOp String)) (t : Tracked String (Tables (scheme.collation mysql)))
    (hrun : Run (trackedStep (collatedStore (scheme.collation mysql) D)) ⟨.empty, []⟩ ops t) :
    (ConversationsApart t.returned ↔ KeysSeparated (scheme.collation mysql) t.returned) ∧
    (∀ sid m₁ m₂, sid ∈ returnedIds t.returned →
      validateMessage sid m₁ = .ok () → validateMessage sid m₂ = .ok () →
      D.refusal [sid, m₁] [] = none → D.refusal [sid, m₂] [] = none →
      (isProcessed D sid m₂ t.store).1 = .ok false →
      ((isProcessed D sid m₂ (markProcessed D sid m₁ t.store).2).1 = .ok true ↔
        scheme.collation mysql m₁ = scheme.collation mysql m₂)) ∧
    (∀ uuid a, validateArgs a = .ok () →
      D.refusal [a.key.workspaceId, a.key.channel, a.key.externalThreadKey] [] = none →
      Db.rowRefusal D (Session.create uuid a) = none →
      scheme.collation mysql uuid ∉
        t.store.sessions.map (Session.idWeight (scheme.collation mysql)) →
      ∃ s, (getOrCreate D uuid a t.store).1 = .ok s) ∧
    (scheme ≠ .mysqlPymysql → KeysSeparated (scheme.collation mysql) t.returned ∧
      ∀ m₁ m₂, scheme.collation mysql m₁ = scheme.collation mysql m₂ → m₁ = m₂) := by
  have hstores : t.store.Stores t.returned :=
    hrun.invariant (P := fun t => t.store.Stores t.returned)
      (fun hstep h => stores_step h hstep) Tables.Stores.empty
  refine ⟨hstores.apart_iff, ?_, fun uuid a hv hbind hrow hid =>
    getOrCreate_returns hv hbind hrow hid, ?_⟩
  · intro sid m₁ m₂ hsid hv₁ hv₂ hbind₁ hbind₂ hnew
    obtain ⟨x, hx, rfl⟩ := List.mem_map.mp hsid
    obtain ⟨s, hs, hid, -⟩ := hstores.row hx
    have hknown : scheme.collation mysql x.2.sessionId ∈
        t.store.sessions.map (Session.idWeight (scheme.collation mysql)) :=
      List.mem_map.mpr ⟨s, hs, congrArg (scheme.collation mysql) hid⟩
    rw [isProcessed_eq hv₂ hbind₂, Except.ok.injEq, decide_eq_false_iff_not] at hnew
    rw [isProcessed_eq hv₂ hbind₂, Except.ok.injEq, decide_eq_true_eq,
      markProcessed_weights hv₁ hbind₁ hknown, or_iff_right hnew, messageWeight, messageWeight,
      Prod.mk.injEq, and_iff_right rfl, eq_comm]
  · intro hscheme
    have hexact : scheme.collation mysql = id := by
      cases scheme with
      | sqlite => rfl
      | mysqlPymysql => exact absurd rfl hscheme
      | postgresqlPsycopg => rfl
    generalize t.returned = returned
    rw [hexact]
    exact ⟨fun x _ y _ h => h, fun m₁ m₂ h => h⟩

/-- MySQL's comparison, on texts whose letters are ASCII. -/
def foldCase : Collation := fun t => String.ofList (t.toList.map Char.toLower)

/-- MySQL through PyMySQL: an `INT` has 32 bits, and the foreign key is enforced. -/
def mysqlDialect : Dialect where
  text _ := none
  integer i := if -2147483648 ≤ i ∧ i < 2147483648 then none else some "Out of range value"
  float
    | .finite q => .ok (.finite q)
    | .negZero => .ok .negZero
    | _ => .error (.columnError "can not be used with MySQL")
  enforcesForeignKeys := true
  integer_zero := rfl
  float_zero := rfl

/-- Two threads ask for their sessions. -/
def twoThreads (thread₁ thread₂ : String) : List (StoreOp String) :=
  [.getOrCreate "s1" ⟨⟨"w", "feishu", thread₁⟩, "codex", 50⟩,
    .getOrCreate "s2" ⟨⟨"w", "feishu", thread₂⟩, "codex", 50⟩]

/-- Two threads that differ in a letter. -/
theorem conversations_apart_letters :
    ∃ t, Run (trackedStep (collatedStore (Scheme.mysqlPymysql.collation foldCase) mysqlDialect))
        ⟨.empty, []⟩ (twoThreads "om_a" "om_b") t ∧
      ConversationsApart t.returned ∧
      (isProcessed mysqlDialect "s1" "m2" (markProcessed mysqlDialect "s1" "m1" t.store).2).1 ≠
        .ok true := by
  have hrun : Run
      (trackedStep (collatedStore (Scheme.mysqlPymysql.collation foldCase) mysqlDialect))
      ⟨.empty, []⟩ (twoThreads "om_a" "om_b") _ := Run.cons rfl (Run.cons rfl .nil)
  obtain ⟨hkeys, hmessages, -⟩ := conversations_apart foldCase .mysqlPymysql mysqlDialect _ _ hrun
  refine ⟨_, hrun, hkeys.mpr (by decide +kernel), ?_⟩
  rw [ne_eq, hmessages "s1" "m1" "m2" (by decide +kernel) rfl rfl rfl rfl (by decide +kernel)]
  decide +kernel

/-- Two threads that differ in case share a session, and their messages a mark. -/
theorem case_shares_session :
    ∃ t, Run (trackedStep (collatedStore (Scheme.mysqlPymysql.collation foldCase) mysqlDialect))
        ⟨.empty, []⟩ (twoThreads "om_a" "om_A") t ∧
      t.returned.map (·.2.sessionId) = ["s1", "s1"] ∧ ¬ ConversationsApart t.returned ∧
      (isProcessed mysqlDialect "s1" "M1" t.store).1 = .ok false ∧
      (isProcessed mysqlDialect "s1" "M1" (markProcessed mysqlDialect "s1" "m1" t.store).2).1 =
        .ok true := by
  have hrun : Run
      (trackedStep (collatedStore (Scheme.mysqlPymysql.collation foldCase) mysqlDialect))
      ⟨.empty, []⟩ (twoThreads "om_a" "om_A") _ := Run.cons rfl (Run.cons rfl .nil)
  refine ⟨_, hrun, rfl, fun hapart => ?_, rfl, rfl⟩
  have hkey := hapart.own_key (List.mem_cons_of_mem _ List.mem_cons_self)
  revert hkey
  decide +kernel

end Dialects

end ClawEngine.Persistence
