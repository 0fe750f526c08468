import ClawEngine.Laws.SessionRace
import ClawEngine.Persistence.SqliteOpeners

/-!
# Racing openers of one file

Any number of `SqliteSessionStore`s on one file, each with one call of `get_or_create` after the
other, their statements interleaved in any order. Calls that return agree: a row that was committed
is never deleted, and no key has two. But an `INSERT` whose key was committed by another store since
the `SELECT` raises, and `get_or_create` does not look again, as its sibling of SQLAlchemy does
(`race_agrees`). So no call raises exactly if no `INSERT` comes so late.

What carries the proof: a connection sees the file, but for the row it has inserted and not
committed; and only one connection has such a row, since an insertion needs the lock.
-/

set_option autoImplicit false

namespace ClawEngine.Persistence.SqliteStore

open ClawEngine.Core ClawEngine.Orchestration SqlAlchemyStore

variable {κ : Type}

/-! ## What holds between two statements -/

/-- The id the call has drawn. -/
def OpenerStage.uuid? : OpenerStage → Option String
  | .idle | .selecting _ => none
  | .inserting uuid _ | .committing uuid _ => some uuid

/-- The lock, the ids and the answers in a state between two statements. -/
structure Openers (ids : Nat → String) (w : SharedFile κ) : Prop where
  undrawn : ∀ n, w.drawn ≤ n → Fresh w.file (ids n)
  drew : ∀ i uuid, (w.stages i).uuid? = some uuid →
    Fresh w.file uuid ∧ ∃ n < w.drawn, uuid = ids n
  apart : ∀ i j uuid, (w.stages i).uuid? = some uuid → (w.stages j).uuid? = some uuid → i = j
  inserted : ∀ i uuid a, w.stages i = .committing uuid a →
    ∃ hnew, w.writer = some (i, w.file.addSession (Session.create uuid a) hnew)
  pending : ∀ i pending, w.writer = some (i, pending) →
    (∃ uuid a, w.stages i = .committing uuid a) ∨ pending = w.file
  rows : ∀ x ∈ w.answered, ∀ s, x.answer = .ok s → s ∈ w.file.sessions ∧ s.key = x.args.key

/-- No call has raised, and calls with one key returned one session. -/
def Guaranteed (w : SharedFile κ) : Prop :=
  (∀ x ∈ w.answered, ∃ s, x.answer = .ok s) ∧
    ∀ x ∈ w.answered, ∀ y ∈ w.answered, x.args.key = y.args.key → x.answer = y.answer

/-- If the statement is an `INSERT`, no row of its key is in the file, and its number of rounds is
one that SQLite takes. -/
def InTime (w : SharedFile κ) : OpenerAction κ → Prop
  | .call _ _ => True
  | .statement i => ∀ uuid a, w.stages i = .inserting uuid a →
    a.key ∉ w.file.sessions.map Session.key ∧ Dialect.sqlite.integer a.maxRounds = none

section Values

variable {uuid : String} {a : CreateArgs}

/-- SQLite takes every text. -/
theorem sqlite_select (k : Key) (db : Db) :
    db.selectSession .sqlite k = .ok (db.ledger.session k).toList :=
  Db.selectSession_of_binds (Dialect.refusal_eq_none.mpr ⟨fun _ _ => rfl, nofun⟩)

theorem sqlite_rowRefusal :
    Db.rowRefusal .sqlite (Session.create uuid a) = none ↔
      Dialect.sqlite.integer a.maxRounds = none := by
  unfold Db.rowRefusal
  rw [Dialect.refusal_eq_none]
  constructor
  · exact fun h => h.2 _ (List.mem_cons_of_mem _ (List.mem_singleton_self _))
  · refine fun h => ⟨fun _ _ => rfl, fun i hi => ?_⟩
    rcases List.mem_cons.mp hi with rfl | hi
    · exact Dialect.sqlite.integer_zero
    · obtain rfl := List.mem_singleton.mp hi
      exact h

end Values

/-! ## One statement -/

section Statements

variable [DecidableEq κ] {ids : Nat → String} {w w' : SharedFile κ} {i : κ} {uuid : String}
  {a : CreateArgs}

theorem stages_goTo (w : SharedFile κ) (i : κ) (stage : OpenerStage) (j : κ) :
    (w.goTo i stage).stages j = if j = i then stage else w.stages j :=
  Function.update_apply _ _ _ _

/-- A connection without a row of its own sees the file. -/
theorem Openers.view (h : Openers ids w) (hstage : ∀ uuid a, w.stages i ≠ .committing uuid a) :
    w.view i = w.file := by
  unfold SharedFile.view
  cases hwriter : w.writer with
  | none => rfl
  | some held =>
    obtain ⟨j, pending⟩ := held
    by_cases hj : j = i
    · subst hj
      rcases h.pending j pending hwriter with ⟨uuid, a, hcommitting⟩ | rfl
      · exact absurd hcommitting (hstage uuid a)
      · exact if_pos rfl
    · exact if_neg hj

/-- A store that goes on with no id drawn. -/
theorem Openers.goTo {stage : OpenerStage} (h : Openers ids w) (hquiet : stage.uuid? = none)
    (hstage : ∀ uuid a, w.stages i ≠ .committing uuid a) : Openers ids (w.goTo i stage) := by
  have huuid : ∀ j u, ((w.goTo i stage).stages j).uuid? = some u →
      (w.stages j).uuid? = some u := by
    intro j u hu
    rw [stages_goTo] at hu
    split at hu
    · rw [hquiet] at hu
      cases hu
    · exact hu
  refine ⟨h.undrawn, fun j u hu => h.drew j u (huuid j u hu),
    fun j k u hj hk => h.apart j k u (huuid j u hj) (huuid k u hk), fun j u b hj => ?_,
    fun j pending hwriter => ?_, h.rows⟩
  · rw [stages_goTo] at hj
    split at hj
    · rw [hj] at hquiet
      cases hquiet
    · exact h.inserted j u b hj
  · rcases h.pending j pending hwriter with ⟨u, b, hj⟩ | hsame
    · refine .inl ⟨u, b, ?_⟩
      rw [stages_goTo, if_neg]
      · exact hj
      · rintro rfl
        exact hstage u b hj
    · exact .inr hsame

/-- A call that ends without a row of its own. -/
theorem Openers.answer {answer : Except StoreError (Session String)} (h : Openers ids w)
    (hstage : ∀ uuid a, w.stages i ≠ .committing uuid a)
    (hrow : ∀ s, answer = .ok s → s ∈ w.file.sessions ∧ s.key = a.key) :
    Openers ids (w.answer i a answer) := by
  have hidle : Openers ids (w.goTo i .idle) := h.goTo rfl hstage
  refine { hidle with rows := fun x hx s hs => ?_ }
  rcases List.mem_append.mp hx with hx | hx
  · exact h.rows x hx s hs
  · obtain rfl := List.mem_singleton.mp hx
    exact hrow s hs

/-- Where nobody else has the lock, no other call has a row of its own. -/
theorem Openers.alone (h : Openers ids w) (hfree : w.lockedFor i = false) {j : κ}
    (hj : w.stages j = .committing uuid a) : j = i := by
  obtain ⟨hnew, hwriter⟩ := h.inserted j uuid a hj
  rw [SharedFile.lockedFor, hwriter] at hfree
  simpa using hfree

/-- An insertion that fails leaves the lock taken. -/
theorem Openers.lock (h : Openers ids w) (hstage : ∀ uuid a, w.stages i ≠ .committing uuid a)
    (hfree : w.lockedFor i = false) : Openers ids { w with writer := some (i, w.file) } := by
  refine ⟨h.undrawn, h.drew, h.apart, fun j u b hj => ?_, fun j pending hwriter => ?_, h.rows⟩
  · exact absurd (h.alone hfree hj ▸ hj) (hstage u b)
  · cases hwriter
    exact .inr rfl

/-- A `SELECT` that finds no row: the call draws its id. -/
theorem Openers.draw (h : Openers ids w) (hinj : Function.Injective ids)
    (hstage : ∀ uuid a, w.stages i ≠ .committing uuid a) (a : CreateArgs) :
    Openers ids { w.goTo i (.inserting (ids w.drawn) a) with drawn := w.drawn + 1 } := by
  have hothers : ∀ j, j ≠ i → (w.goTo i (.inserting (ids w.drawn) a)).stages j = w.stages j :=
    fun j hj => (stages_goTo w i _ j).trans (if_neg hj)
  have hself : (w.goTo i (.inserting (ids w.drawn) a)).stages i = .inserting (ids w.drawn) a :=
    (stages_goTo w i _ i).trans (if_pos rfl)
  have hown : ∀ j u, ((w.goTo i (.inserting (ids w.drawn) a)).stages j).uuid? = some u →
      (j = i ∧ u = ids w.drawn) ∨ (j ≠ i ∧ (w.stages j).uuid? = some u) := by
    intro j u hu
    by_cases hj : j = i
    · subst hj
      rw [hself] at hu
      exact .inl ⟨rfl, (Option.some.inj hu).symm⟩
    · rw [hothers j hj] at hu
      exact .inr ⟨hj, hu⟩
  have hnew : ∀ j u, (w.stages j).uuid? = some u → u ≠ ids w.drawn := by
    rintro j u hu rfl
    obtain ⟨-, n, hn, hid⟩ := h.drew j _ hu
    exact absurd (hinj hid) hn.ne'
  refine ⟨fun n hn => h.undrawn n (Nat.le_of_succ_le hn), fun j u hu => ?_,
    fun j k u hj hk => ?_, fun j u b hj => ?_, fun j pending hwriter => ?_, h.rows⟩
  · rcases hown j u hu with ⟨-, rfl⟩ | ⟨-, hu⟩
    · exact ⟨h.undrawn w.drawn (Nat.le_refl _), w.drawn, Nat.lt_succ_self _, rfl⟩
    · obtain ⟨hfresh, n, hn, hid⟩ := h.drew j u hu
      exact ⟨hfresh, n, Nat.lt_succ_of_lt hn, hid⟩
  · rcases hown j u hj with ⟨hji, hu⟩ | ⟨-, hu⟩ <;>
      rcases hown k u hk with ⟨hki, hu'⟩ | ⟨-, hu'⟩
    · exact hji.trans hki.symm
    · exact absurd hu (hnew k u hu')
    · exact absurd hu' (hnew j u hu)
    · exact h.apart j k u hu hu'
  · by_cases hji : j = i
    · subst hji
      rw [show _ = OpenerStage.inserting (ids w.drawn) a from hself] at hj
      cases hj
    · rw [show _ = w.stages j from hothers j hji] at hj
      exact h.inserted j u b hj
  · rcases h.pending j pending hwriter with ⟨u, b, hj⟩ | hsame
    · refine .inl ⟨u, b, (hothers j ?_).trans hj⟩
      rintro rfl
      exact hstage u b hj
    · exact .inr hsame

/-- An insertion: the row is in the database that the connection sees. -/
theorem Openers.insert (h : Openers ids w) (hstage : w.stages i = .inserting uuid a)
    (hfree : w.lockedFor i = false) (hnew : w.file.New (Session.create uuid a)) :
    Openers ids { w.goTo i (.committing uuid a) with
      writer := some (i, w.file.addSession (Session.create uuid a) hnew) } := by
  have hstages : ∀ j, ((w.goTo i (.committing uuid a)).stages j).uuid? = (w.stages j).uuid? := by
    intro j
    rw [stages_goTo]
    split
    next hj => rw [hj, hstage]; rfl
    next => rfl
  refine ⟨h.undrawn, fun j u hu => h.drew j u ((hstages j).symm.trans hu),
    fun j k u hj hk => h.apart j k u ((hstages j).symm.trans hj) ((hstages k).symm.trans hk),
    fun j u b hj => ?_, fun j pending hwriter => ?_, h.rows⟩
  · have hj' := (stages_goTo w i (.committing uuid a) j).symm.trans hj
    by_cases hji : j = i
    · subst hji
      rw [if_pos rfl] at hj'
      cases hj'
      exact ⟨hnew, rfl⟩
    · rw [if_neg hji] at hj'
      exact absurd (h.alone hfree hj') hji
  · cases hwriter
    exact .inl ⟨uuid, a, (stages_goTo w i _ i).trans (if_pos rfl)⟩

/-- A commit: the row is in the file. -/
theorem Openers.commit (h : Openers ids w) (hinj : Function.Injective ids)
    (hstage : w.stages i = .committing uuid a) : Openers ids (w.commit i uuid a) := by
  obtain ⟨hnew, hwriter⟩ := h.inserted i uuid a hstage
  have huuid : (w.stages i).uuid? = some uuid := by rw [hstage]; rfl
  obtain ⟨-, m, hm, hid⟩ := h.drew i uuid huuid
  have hleft : w.commit i uuid a =
      { w.answer i a (.ok (Session.create uuid a)) with
        file := w.file.addSession (Session.create uuid a) hnew, writer := none } := by
    simp only [SharedFile.commit, hwriter, if_pos]
  have hfree : w.lockedFor i = false := by
    simp only [SharedFile.lockedFor, hwriter, decide_true, Bool.not_true]
  have hstages : ∀ j, (w.commit i uuid a).stages j = if j = i then .idle else w.stages j := by
    rw [hleft]
    exact stages_goTo w i .idle
  have hfresh : ∀ u, u ≠ uuid → Fresh w.file u →
      Fresh (w.file.addSession (Session.create uuid a) hnew) u := by
    intro u hu hfresh hmem
    rw [Db.addSession, List.map_append, List.mem_append] at hmem
    rcases hmem with hmem | hmem
    · exact hfresh hmem
    · exact hu (List.mem_singleton.mp hmem)
  have hothers : ∀ j u, ((w.commit i uuid a).stages j).uuid? = some u →
      j ≠ i ∧ (w.stages j).uuid? = some u := by
    intro j u hu
    rw [hstages] at hu
    split at hu
    · cases hu
    next hji => exact ⟨hji, hu⟩
  have hdrawn : (w.commit i uuid a).drawn = w.drawn := by rw [hleft]; rfl
  have hfile : (w.commit i uuid a).file = w.file.addSession (Session.create uuid a) hnew := by
    rw [hleft]
  refine ⟨fun n hn => ?_, fun j u hu => ?_, fun j k u hj hk => ?_, fun j u b hj => ?_,
    fun j pending hpending => ?_, fun x hx s hs => ?_⟩
  · rw [hdrawn] at hn
    rw [hfile]
    refine hfresh _ (fun hn' => ?_) (h.undrawn n hn)
    exact absurd (hinj (hn'.trans hid)) (hm.trans_le hn).ne'
  · obtain ⟨hji, hu⟩ := hothers j u hu
    rw [hfile, hdrawn]
    refine ⟨hfresh u (fun heq => ?_) (h.drew j u hu).1, (h.drew j u hu).2⟩
    exact hji (h.apart j i u hu (heq ▸ huuid))
  · exact h.apart j k u (hothers j u hj).2 (hothers k u hk).2
  · rw [hstages] at hj
    split at hj
    · cases hj
    next hji => exact absurd (h.alone hfree hj) hji
  · rw [hleft] at hpending
    cases hpending
  · rw [hleft] at hx
    rw [hfile]
    rcases List.mem_append.mp hx with hx | hx
    · obtain ⟨hmem, hkey⟩ := h.rows x hx s hs
      exact ⟨List.mem_append_left _ hmem, hkey⟩
    · obtain rfl := List.mem_singleton.mp hx
      cases hs
      exact ⟨List.mem_append_right _ (List.mem_singleton_self _), rfl⟩

theorem select_found {s : Session String} (hview : w.view i = w.file)
    (hrow : w.file.ledger.session a.key = some s) :
    w.select ids i a = w.answer i a (.ok s) := by
  simp only [SharedFile.select, hview, sqlite_select, hrow, Option.toList_some]

theorem select_missing (hview : w.view i = w.file) (hrow : w.file.ledger.session a.key = none) :
    w.select ids i a =
      { w.goTo i (.inserting (ids w.drawn) a) with drawn := w.drawn + 1 } := by
  simp only [SharedFile.select, hview, sqlite_select, hrow, Option.toList_none]

/-- A `SELECT` ends the call with the row of its key, or finds none. -/
theorem Openers.select_cases (h : Openers ids w) (hstage : w.stages i = .selecting a) :
    (∃ s, (s ∈ w.file.sessions ∧ s.key = a.key) ∧ w.select ids i a = w.answer i a (.ok s)) ∨
      w.select ids i a =
        { w.goTo i (.inserting (ids w.drawn) a) with drawn := w.drawn + 1 } := by
  have hview := h.view (i := i) fun u b hu => by
    rw [hstage] at hu
    cases hu
  cases hrow : w.file.ledger.session a.key with
  | none => exact .inr (select_missing hview hrow)
  | some s => exact .inl ⟨s, Db.ledger_session.mp hrow, select_found hview hrow⟩

/-- An `INSERT` that is in time succeeds, and otherwise the call ends with its exception. -/
theorem Openers.insert_cases (h : Openers ids w) (hstage : w.stages i = .inserting uuid a) :
    (InTime w (.statement i) ∧ ∃ hnew, w.insert i uuid a = { w.goTo i (.committing uuid a) with
      writer := some (i, w.file.addSession (Session.create uuid a) hnew) }) ∨
    (¬ InTime w (.statement i) ∧ ∃ e, w.insert i uuid a = w.answer i a (.error e) ∨
      w.insert i uuid a = { w.answer i a (.error e) with writer := some (i, w.file) }) := by
  have hview := h.view (i := i) fun u b hu => by
    rw [hstage] at hu
    cases hu
  have htime : InTime w (.statement i) ↔ a.key ∉ w.file.sessions.map Session.key ∧
      Dialect.sqlite.integer a.maxRounds = none := by
    constructor
    · exact fun htime => htime uuid a hstage
    · rintro ⟨hkey, hint⟩ u b hu
      rw [hstage] at hu
      cases hu
      exact ⟨hkey, hint⟩
  have hfresh := (h.drew i uuid (by rw [hstage]; rfl)).1
  rw [htime]
  unfold SharedFile.insert
  rw [hview]
  rcases Db.insertSession_cases (D := .sqlite) (a := a) hfresh with
    ⟨hnew, hans, hint⟩ | ⟨hans, hkey⟩ | ⟨message, hans, hint⟩
  · rw [hans]
    exact .inl ⟨⟨hnew.1, sqlite_rowRefusal.mp hint⟩, hnew, rfl⟩
  · rw [hans]
    exact .inr ⟨fun h => h.1 hkey, .integrityError, .inr rfl⟩
  · rw [hans]
    exact .inr ⟨fun h => hint (sqlite_rowRefusal.mpr h.2), _, .inl rfl⟩

end Statements

/-! ## Every interleaving -/

section Answers

variable {ids : Nat → String} {w w' : SharedFile κ}

/-- Every call that ended has returned. -/
def AllReturned (w : SharedFile κ) : Prop := ∀ x ∈ w.answered, ∃ s, x.answer = .ok s

theorem allReturned_snoc {x : Answered} (h : w'.answered = w.answered ++ [x]) :
    AllReturned w' ↔ AllReturned w ∧ ∃ s, x.answer = .ok s := by
  unfold AllReturned
  rw [h]
  constructor
  · exact fun hall => ⟨fun y hy => hall y (List.mem_append_left _ hy),
      hall x (List.mem_append_right _ (List.mem_singleton_self _))⟩
  · rintro ⟨hall, hx⟩ y hy
    rcases List.mem_append.mp hy with hy | hy
    · exact hall y hy
    · exact List.mem_singleton.mp hy ▸ hx

theorem allReturned_same (h : w'.answered = w.answered) : AllReturned w' ↔ AllReturned w := by
  rw [AllReturned, h, AllReturned]

/-- Calls with one key that returned, returned one session. -/
theorem Openers.agree (h : Openers ids w) {x y : Answered} {s t : Session String}
    (hx : x ∈ w.answered) (hy : y ∈ w.answered) (hkey : x.args.key = y.args.key)
    (hs : x.answer = .ok s) (ht : y.answer = .ok t) : s = t := by
  obtain ⟨hmem, hskey⟩ := h.rows x hx s hs
  obtain ⟨hmem', htkey⟩ := h.rows y hy t ht
  exact List.inj_on_of_nodup_map w.file.naturalKey hmem hmem' (hskey.trans (hkey.trans htkey.symm))

theorem Openers.guaranteed_iff (h : Openers ids w) : Guaranteed w ↔ AllReturned w := by
  refine ⟨And.left, fun hall => ⟨hall, fun x hx y hy hkey => ?_⟩⟩
  obtain ⟨s, hs⟩ := hall x hx
  obtain ⟨t, ht⟩ := hall y hy
  rw [hs, ht, h.agree hx hy hkey hs ht]

/-- The stores before their first call. -/
def SharedFile.start (db : Db) : SharedFile κ := { file := db }

theorem openers_start {db : Db} (hfresh : ∀ n, Fresh db (ids n)) :
    Openers ids (SharedFile.start db : SharedFile κ) :=
  ⟨fun n _ => hfresh n, nofun, nofun, nofun, nofun, nofun⟩

end Answers

section Race

variable [DecidableEq κ] {ids : Nat → String} {w w' : SharedFile κ} {action : OpenerAction κ}

/-- **One step** keeps the lock, the ids and the answers in order, and the calls that ended have
still returned exactly if it is no `INSERT` that is late. -/
theorem Openers.step (h : Openers ids w) (hinj : Function.Injective ids)
    (hstep : SharedFile.step ids action w = some w') :
    Openers ids w' ∧ (AllReturned w' ↔ AllReturned w ∧ InTime w action) := by
  cases action with
  | call i a =>
    cases hstage : w.stages i with
    | idle =>
      simp only [SharedFile.step, hstage, Option.some.injEq] at hstep
      subst hstep
      refine ⟨h.goTo rfl fun u b hu => ?_, ?_⟩
      · rw [hstage] at hu
        cases hu
      · exact (allReturned_same rfl).trans (and_iff_left trivial).symm
    | _ => simp only [SharedFile.step, hstage, reduceCtorEq] at hstep
  | statement i =>
    have hidle : ∀ stage, w.stages i = stage → (∀ u b, stage ≠ .inserting u b) →
        InTime w (.statement i) := fun stage hstage hne u b hu =>
      absurd (hstage.symm.trans hu) (hne u b)
    cases hstage : w.stages i with
    | idle => simp only [SharedFile.step, SharedFile.statement, hstage, reduceCtorEq] at hstep
    | selecting a =>
      have hquiet : ∀ u b, w.stages i ≠ .committing u b := fun u b hu => by
        rw [hstage] at hu
        cases hu
      have htime := hidle _ hstage nofun
      simp only [SharedFile.step, SharedFile.statement, hstage, Option.some.injEq] at hstep
      subst hstep
      rcases h.select_cases hstage with ⟨s, hs, heq⟩ | heq
      · rw [heq]
        refine ⟨h.answer hquiet fun t ht => ?_, ?_⟩
        · cases ht
          exact hs
        · rw [allReturned_snoc rfl]
          exact and_congr_right fun _ => ⟨fun _ => htime, fun _ => ⟨s, rfl⟩⟩
      · rw [heq]
        exact ⟨h.draw hinj hquiet a, (allReturned_same rfl).trans (and_iff_left htime).symm⟩
    | inserting uuid a =>
      have hquiet : ∀ u b, w.stages i ≠ .committing u b := fun u b hu => by
        rw [hstage] at hu
        cases hu
      simp only [SharedFile.step, SharedFile.statement, hstage] at hstep
      cases hfree : w.lockedFor i with
      | true =>
        rw [hfree] at hstep
        cases hstep
      | false =>
        rw [hfree, if_neg Bool.false_ne_true, Option.some.injEq] at hstep
        subst hstep
        rcases h.insert_cases hstage with ⟨htime, hnew, heq⟩ | ⟨hlate, e, heq | heq⟩
        · rw [heq]
          exact ⟨h.insert hstage hfree hnew, (allReturned_same rfl).trans (and_iff_left htime).symm⟩
        · rw [heq]
          refine ⟨h.answer hquiet nofun, ?_⟩
          rw [allReturned_snoc rfl]
          exact and_congr_right fun _ => ⟨nofun, fun htime => absurd htime hlate⟩
        · rw [heq]
          refine ⟨(h.lock hquiet hfree).answer hquiet nofun, ?_⟩
          rw [allReturned_snoc rfl]
          exact and_congr_right fun _ => ⟨nofun, fun htime => absurd htime hlate⟩
    | committing uuid a =>
      have htime := hidle _ hstage nofun
      simp only [SharedFile.step, SharedFile.statement, hstage, Option.some.injEq] at hstep
      subst hstep
      refine ⟨h.commit hinj hstage, ?_⟩
      have hanswered : (w.commit i uuid a).answered =
          w.answered ++ [⟨a, .ok (Session.create uuid a)⟩] := by
        obtain ⟨hnew, hwriter⟩ := h.inserted i uuid a hstage
        simp only [SharedFile.commit, hwriter, if_pos]
        rfl
      rw [allReturned_snoc hanswered]
      exact and_congr_right fun _ => ⟨fun _ => htime, fun _ => ⟨_, rfl⟩⟩

/-- **Racing openers.** Throughout a run of statements of any number of stores on one file, with new
ids: calls with one key that return, return one session; and no call raises exactly if every
`INSERT` finds no row of its key in the file, and a number of rounds that SQLite takes. -/
theorem openers_guaranteed_iff (db : Db) (hinj : Function.Injective ids)
    (hfresh : ∀ n, Fresh db (ids n)) {actions : List (OpenerAction κ)}
    (h : Run (SharedFile.step ids) (.start db) actions w) :
    (∀ x ∈ w.answered, ∀ y ∈ w.answered, ∀ s t, x.args.key = y.args.key → x.answer = .ok s →
      y.answer = .ok t → s = t) ∧
    ((∀ pre t, pre <+: actions → Run (SharedFile.step ids) (.start db) pre t → Guaranteed t) ↔
      ∀ pre action t, pre ++ [action] <+: actions →
        Run (SharedFile.step ids) (.start db) pre t → InTime t action) := by
  have hopeners : ∀ pre (t : SharedFile κ), Run (SharedFile.step ids) (.start db) pre t →
      Openers ids t := fun pre t ht =>
    ht.invariant (fun hstep hs => (Openers.step hs hinj hstep).1) (openers_start hfresh)
  refine ⟨fun x hx y hy s t hkey hs ht => (hopeners _ _ h).agree hx hy hkey hs ht, ?_⟩
  have hstep : ∀ {action : OpenerAction κ} {t t' : SharedFile κ},
      SharedFile.step ids action t = some t' → Openers ids t ∧ AllReturned t →
        ((Openers ids t' ∧ AllReturned t') ↔ InTime t action) := by
    rintro action t t' hstep ⟨ht, hall⟩
    obtain ⟨hnext, hiff⟩ := ht.step hinj hstep
    exact ⟨fun h => (hiff.mp h.2).2, fun h => ⟨hnext, hiff.mpr ⟨hall, h⟩⟩⟩
  rw [← h.throughout_iff hstep ⟨openers_start hfresh, nofun⟩]
  refine forall₂_congr fun pre t => forall_congr' fun _ => forall_congr' fun ht => ?_
  have ht' := hopeners pre t ht
  rw [ht'.guaranteed_iff]
  exact (and_iff_right ht').symm

end Race

/-! ## A call performed alone -/

section Alone

variable [DecidableEq κ] {ids : Nat → String} {w w' : SharedFile κ} {i : κ} {a : CreateArgs}

theorem run_statement (hstep : w.statement ids i = some w') :
    Run (SharedFile.step ids) w [.statement i] w' := .cons hstep .nil

/-- **A call that nothing interleaves with** is `SqliteSessionStore.get_or_create`. -/
theorem call_alone (hidle : w.stages i = .idle) (hfree : w.writer = none) (a : CreateArgs) :
    ∃ n w', Run (SharedFile.step ids) w (.call i a :: List.replicate n (.statement i)) w' ∧
      w'.answered = w.answered ++ [⟨a, (getOrCreate (ids w.drawn) a w.file).1⟩] ∧
      w'.file = (getOrCreate (ids w.drawn) a w.file).2 := by
  have hcall : SharedFile.step ids (.call i a) w = some (w.goTo i (.selecting a)) := by
    simp only [SharedFile.step, hidle]
  have hstage : ∀ (u : SharedFile κ) (stage : OpenerStage), (u.goTo i stage).stages i = stage :=
    fun u stage => (stages_goTo u i stage i).trans (if_pos rfl)
  have hview : (w.goTo i (.selecting a)).view i = (w.goTo i (.selecting a)).file := by
    simp only [SharedFile.view, SharedFile.goTo, hfree]
  have hselect : (w.goTo i (.selecting a)).statement ids i =
      some ((w.goTo i (.selecting a)).select ids i a) := by
    simp only [SharedFile.statement, hstage]
  cases hrow : w.file.ledger.session a.key with
  | some s =>
    rw [select_found hview hrow] at hselect
    have halone : getOrCreate (ids w.drawn) a w.file = (.ok s, w.file) := by
      simp only [getOrCreate, sqlite_select, hrow, Option.toList_some]
    rw [halone]
    exact ⟨1, _, .cons hcall (run_statement hselect), rfl, rfl⟩
  | none =>
    rw [select_missing hview hrow] at hselect
    generalize hu : SharedFile.mk _ _ _ _ _ = u at hselect
    have hfile : u.file = w.file := by rw [← hu]; rfl
    have hanswered : u.answered = w.answered := by rw [← hu]; rfl
    have hwriter : u.writer = none := by rw [← hu]; exact hfree
    have hinserting : u.stages i = .inserting (ids w.drawn) a := by
      rw [← hu]
      exact hstage _ _
    have hsees : u.view i = u.file := by simp only [SharedFile.view, hwriter]
    have hinsert : u.statement ids i = some (u.insert i (ids w.drawn) a) := by
      simp only [SharedFile.statement, hinserting, SharedFile.lockedFor, hwriter]
      rfl
    have hstarted := (Run.nil.snoc hcall).append (run_statement hselect)
    rw [← hfile, ← hanswered]
    cases hans : u.file.insertSession .sqlite (Session.create (ids w.drawn) a) with
    | error e =>
      have halone : getOrCreate (ids w.drawn) a u.file = (.error e, u.file) := by
        simp only [getOrCreate, sqlite_select, hfile, hrow, Option.toList_none]
        rw [← hfile, hans]
      rw [halone]
      refine ⟨2, _, hstarted.append (run_statement hinsert), ?_⟩
      unfold SharedFile.insert
      rw [hsees, hans]
      cases e <;> exact ⟨rfl, rfl⟩
    | ok db' =>
      have halone : getOrCreate (ids w.drawn) a u.file =
          (.ok (Session.create (ids w.drawn) a), db') := by
        simp only [getOrCreate, sqlite_select, hfile, hrow, Option.toList_none]
        rw [← hfile, hans]
      have hinserted : u.insert i (ids w.drawn) a =
          { u.goTo i (.committing (ids w.drawn) a) with writer := some (i, db') } := by
        simp only [SharedFile.insert, hsees, hans]
      have hcommit : (u.insert i (ids w.drawn) a).statement ids i =
          some ((u.insert i (ids w.drawn) a).commit i (ids w.drawn) a) := by
        rw [hinserted]
        simp only [SharedFile.statement, hstage]
      rw [halone]
      refine ⟨3, _, (hstarted.append (run_statement hinsert)).append (run_statement hcommit), ?_⟩
      rw [hinserted]
      simp only [SharedFile.commit, if_pos]
      exact ⟨rfl, trivial⟩

end Alone

/-! ## Two openers -/

/-- Ids of one letter, each a letter longer. -/
def longerId (n : Nat) : String := String.ofList (List.replicate (n + 1) 's')

theorem longerId_injective : Function.Injective longerId := fun _ _ h =>
  Nat.succ_injective (List.replicate_left_injective 's' (String.ofList_injective h))

def feishuArgs (backendName : String) : CreateArgs := ⟨⟨"w", "feishu", "t"⟩, backendName, 50⟩

/-- Two stores ask one after the other: the second gets the session of the first. -/
theorem openers_guaranteed_iff_turns :
    ∃ w, Run (SharedFile.step longerId) (SharedFile.start .empty)
        [.call true (feishuArgs "codex"), .statement true, .statement true, .statement true,
          .call false (feishuArgs "claude"), .statement false] w ∧
      w.answered.map (·.answer) = [.ok (Session.create "s" (feishuArgs "codex")),
        .ok (Session.create "s" (feishuArgs "codex"))] ∧
      ∀ x ∈ w.answered, ∀ y ∈ w.answered, ∀ s t, x.args.key = y.args.key → x.answer = .ok s →
        y.answer = .ok t → s = t := by
  have hrun : Run (SharedFile.step longerId) (SharedFile.start .empty)
      [.call true (feishuArgs "codex"), .statement true, .statement true, .statement true,
        .call false (feishuArgs "claude"), .statement false] _ :=
    .cons rfl (.cons rfl (.cons rfl (.cons rfl (.cons rfl (.cons rfl .nil)))))
  exact ⟨_, hrun, rfl, (openers_guaranteed_iff .empty longerId_injective
    (fun _ => List.not_mem_nil) hrun).1⟩

/-- Both stores look before either inserts: the second `INSERT` raises. -/
theorem late_insert_raises :
    ∃ w, Run (SharedFile.step longerId) (SharedFile.start .empty)
        [.call true (feishuArgs "codex"), .call false (feishuArgs "codex"), .statement true,
          .statement false, .statement true, .statement true, .statement false] w ∧
      w.answered.map (·.answer) = [.ok (Session.create "s" (feishuArgs "codex")),
        .error .integrityError] ∧ ¬ Guaranteed w := by
  have hrun : Run (SharedFile.step longerId) (SharedFile.start .empty)
      [.call true (feishuArgs "codex"), .call false (feishuArgs "codex"), .statement true,
        .statement false, .statement true, .statement true, .statement false] _ :=
    .cons rfl (.cons rfl (.cons rfl (.cons rfl (.cons rfl (.cons rfl (.cons rfl .nil))))))
  refine ⟨_, hrun, rfl, fun h => ?_⟩
  obtain ⟨s, hs⟩ := h.1 ⟨feishuArgs "codex", .error .integrityError⟩
    (List.mem_cons_of_mem _ (List.mem_singleton_self _))
  cases hs

end ClawEngine.Persistence.SqliteStore
