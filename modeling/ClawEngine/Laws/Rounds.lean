import ClawEngine.Laws.HandleTrace
import Mathlib.Data.Set.Card

/-!
# Rounds under interleaving

The counter of a session is written from a snapshot: `handle` saves the session it looked up before
its turn, with one more round. Whatever the interleaving, a session that was created during the run
never counts more rounds than calls returned on it, nor more than its limit. It counts exactly the
calls that returned where no save on the session falls between a call's lookup and its save.
-/

set_option autoImplicit false

namespace ClawEngine.Orchestration

open ClawEngine.Core ClawEngine.Runtime ClawEngine.Persistence

variable {V σ ε ι : Type}

/-- A save on the key that took effect. -/
def isSave (k : Key) : ConvEvent ι V → Bool
  | ⟨_, .store (.save x), .ok _⟩ => x.key = k
  | _ => false

/-- The number of saves on the key. -/
def saves (k : Key) (log : List (ConvEvent ι V)) : Nat := log.countP (isSave k)

/-- Between a call's lookup and its save, no save on the key took effect. -/
def Serial (k : Key) (log : List (ConvEvent ι V)) : Prop :=
  ∀ i l₁ l₂ l₃ uuid a x y u,
    log = l₁ ++ ⟨i, .store (.getOrCreate uuid a), .ok x⟩ ::
        (l₂ ++ ⟨i, .store (.save y), .ok u⟩ :: l₃) →
      y.key = k → ∀ e ∈ l₂, isSave k e = false

theorem saves_snoc (k : Key) (l : List (ConvEvent ι V)) (e : ConvEvent ι V) :
    saves k (l ++ [e]) = saves k l + if isSave k e then 1 else 0 := by
  simp only [saves, List.countP_append, List.countP_singleton]

theorem Serial.left {k : Key} {l₁ l₂ : List (ConvEvent ι V)} (h : Serial k (l₁ ++ l₂)) :
    Serial k l₁ := by
  rintro i m₁ m₂ m₃ uuid a x y u rfl hy
  refine h i m₁ m₂ (m₃ ++ l₂) uuid a x y u ?_ hy
  simp only [List.append_assoc, List.cons_append]

/-- Where one save on the key took effect at most, none falls between. -/
theorem Serial.of_saves_le_one {k : Key} {log : List (ConvEvent ι V)} (h : saves k log ≤ 1) :
    Serial k log := by
  rintro i l₁ l₂ l₃ uuid a x y u rfl hy e he
  rw [Bool.eq_false_iff]
  intro hsave
  have hown : isSave k (⟨i, .store (.save y), .ok u⟩ : ConvEvent ι V) = true := decide_eq_true hy
  have hpos : 0 < l₂.countP (isSave k) := List.countP_pos_iff.mpr ⟨e, he, hsave⟩
  simp only [saves, List.countP_append, List.countP_cons, hown, if_true] at h
  omega

section Counting

variable {S : LawfulStore V σ} {turn : TurnFn V ε} {w : World σ ε} {d : ι → Draws}
  {c : ι → Call V} {log l : List (ConvEvent ι V)} {k : Key}

/-- What the run says of a key that had no session at its start. -/
structure Counted (S : LawfulStore V σ) (turn : TurnFn V ε) (w : World σ ε) (k : Key)
    (log : List (ConvEvent ι V)) : Prop where
  unknown : (ledgerAt S turn w log).session k = none → saves k log = 0 ∧
    ∀ i uuid a x, (⟨i, .store (.getOrCreate uuid a), .ok x⟩ : ConvEvent ι V) ∈ log → x.key ≠ k
  stored : ∀ s, (ledgerAt S turn w log).session k = some s →
    s.roundCount ≤ saves k log ∧ s.roundCount ≤ max 0 s.maxRounds
  snapshot : ∀ i uuid a x, (⟨i, .store (.getOrCreate uuid a), .ok x⟩ : ConvEvent ι V) ∈ log →
    x.key = k → x.roundCount ≤ saves k log ∧ ∃ s, (ledgerAt S turn w log).session k = some s ∧
      x.maxRounds = s.maxRounds

/-- An event that is no save on the key and no lookup of it, and leaves its session alone. -/
theorem Counted.frame (h : Counted S turn w k l) {e : ConvEvent ι V}
    (hsession : (ledgerAt S turn w (l ++ [e])).session k = (ledgerAt S turn w l).session k)
    (hsave : isSave k e = false)
    (hlookup : ∀ i uuid a x, e = ⟨i, .store (.getOrCreate uuid a), .ok x⟩ → x.key ≠ k) :
    Counted S turn w k (l ++ [e]) := by
  have hsaves : saves k (l ++ [e]) = saves k l := by
    rw [saves_snoc, hsave]
    rfl
  constructor
  · intro hnone
    rw [hsession] at hnone
    obtain ⟨hzero, hkeys⟩ := h.unknown hnone
    refine ⟨hsaves.trans hzero, fun i uuid a x hx => ?_⟩
    rcases List.mem_append.mp hx with hx | hx
    · exact hkeys i uuid a x hx
    · exact hlookup i uuid a x (List.mem_singleton.mp hx).symm
  · intro s hs
    rw [hsession] at hs
    rw [hsaves]
    exact h.stored s hs
  · intro i uuid a x hx hk
    rw [hsaves, hsession]
    rcases List.mem_append.mp hx with hx | hx
    · exact h.snapshot i uuid a x hx hk
    · exact absurd hk (hlookup i uuid a x (List.mem_singleton.mp hx).symm)

/-- A lookup of the key. -/
theorem Counted.lookup (h : Counted S turn w k l) {i : ι} {uuid : String} {a : CreateArgs}
    {x : Session V} (hk : a.key = k)
    (hx : x = ((ledgerAt S turn w l).perform S.clock (.getOrCreate uuid a)).1)
    (hledger : ledgerAt S turn w (l ++ [⟨i, .store (.getOrCreate uuid a), .ok x⟩]) =
      ((ledgerAt S turn w l).perform S.clock (.getOrCreate uuid a)).2) :
    Counted S turn w k (l ++ [⟨i, .store (.getOrCreate uuid a), .ok x⟩]) := by
  have hsaves : saves k (l ++ [⟨i, .store (.getOrCreate uuid a), .ok x⟩]) = saves k l := by
    rw [saves_snoc]
    rfl
  simp only [Ledger.perform, hk] at hx hledger
  cases hs : (ledgerAt S turn w l).session k with
  | some s =>
    simp only [hs] at hx hledger
    subst hx
    constructor
    · intro hnone
      rw [hledger, hs] at hnone
      cases hnone
    · intro s' hs'
      rw [hledger] at hs'
      rw [hsaves]
      exact h.stored s' hs'
    · intro j uuid' a' y hy hyk
      rw [hsaves, hledger]
      rcases List.mem_append.mp hy with hy | hy
      · exact h.snapshot j uuid' a' y hy hyk
      · cases List.mem_singleton.mp hy
        exact ⟨(h.stored x hs).1, x, hs, rfl⟩
  | none =>
    simp only [hs] at hx hledger
    obtain ⟨hzero, hkeys⟩ := h.unknown hs
    have hnew : (ledgerAt S turn w (l ++ [⟨i, .store (.getOrCreate uuid a), .ok x⟩])).session k =
        some x := by
      rw [hledger, Ledger.create_session, if_pos hk.symm, hx]
    have hround : x.roundCount = 0 := by rw [hx]; rfl
    constructor
    · intro hnone
      rw [hnew] at hnone
      cases hnone
    · intro s' hs'
      rw [hnew] at hs'
      cases hs'
      rw [hround]
      exact ⟨Int.natCast_nonneg _, le_max_left _ _⟩
    · intro j uuid' a' y hy hyk
      rcases List.mem_append.mp hy with hy | hy
      · exact absurd hyk (hkeys j uuid' a' y hy)
      · cases List.mem_singleton.mp hy
        rw [hround]
        exact ⟨Int.natCast_nonneg _, x, hnew, rfl⟩

/-- A save on the key, of a snapshot with a round left. -/
theorem Counted.save (h : Counted S turn w k l) {i j : ι} {uuid : String} {a : CreateArgs}
    {x : Session V} (hx : (⟨i, .store (.getOrCreate uuid a), .ok x⟩ : ConvEvent ι V) ∈ l)
    (hk : x.key = k) (hround : x.roundCount < x.maxRounds) {tid : Option V} {now : PyFloat}
    (hsession : ∀ k', (ledgerAt S turn w
      (l ++ [⟨j, .store (.save (x.withTurn tid now)), .ok ()⟩])).session k' =
        if k' = x.key then some ((x.withTurn tid now).kept S.clock)
        else (ledgerAt S turn w l).session k') :
    Counted S turn w k (l ++ [⟨j, .store (.save (x.withTurn tid now)), .ok ()⟩]) := by
  have hsaves : saves k (l ++ [⟨j, .store (.save (x.withTurn tid now)), .ok ()⟩]) =
      saves k l + 1 := by
    rw [saves_snoc]
    simp only [isSave, Session.withTurn_key, hk, decide_true, if_true]
  obtain ⟨hle, s, hs, hmax⟩ := h.snapshot i uuid a x hx hk
  have hstored : (ledgerAt S turn w
      (l ++ [⟨j, .store (.save (x.withTurn tid now)), .ok ()⟩])).session k =
        some ((x.withTurn tid now).kept S.clock) := by
    rw [hsession, if_pos hk.symm]
  constructor
  · intro hnone
    rw [hstored] at hnone
    cases hnone
  · intro s' hs'
    rw [hstored] at hs'
    cases hs'
    simp only [Session.kept_roundCount, Session.kept_maxRounds, Session.withTurn_roundCount,
      Session.withTurn_maxRounds, hsaves]
    omega
  · intro i' uuid' a' y hy hyk
    rw [hsaves, hstored]
    rcases List.mem_append.mp hy with hy | hy
    · obtain ⟨hle', s', hs', hmax'⟩ := h.snapshot i' uuid' a' y hy hyk
      rw [hs] at hs'
      cases hs'
      refine ⟨by omega, _, rfl, ?_⟩
      rw [Session.kept_maxRounds, Session.withTurn_maxRounds, hmax, hmax']
    · cases List.mem_singleton.mp hy

/-! ## Every history counts -/

variable [DecidableEq ι]

/-- What a lookup of a call gave: it is on the call's key. -/
theorem ConvHistory.lookup_key (hstart : Start S w d) (h : ConvHistory S turn w d c log) {i : ι}
    {uuid : String} {a : CreateArgs} {x : Session V}
    (hx : (⟨i, .store (.getOrCreate uuid a), .ok x⟩ : ConvEvent ι V) ∈ log) :
    x.key = (c i).key := by
  obtain ⟨l₁, l₂, rfl⟩ := List.append_of_mem hx
  rw [List.append_cons] at h
  have hasks : Asks (d i) (c i) (Pool.own i l₁) (.store (.getOrCreate uuid a)) :=
    ConvHistory.asks h.left
  cases hasks with
  | lookup _ =>
    rcases ConvHistory.effect hstart h.left with ⟨hans, -⟩ | ⟨⟨y, hy⟩, -⟩
    · have hx : x = sessionOf (ledgerAt S turn w l₁) (d i) (c i) := by
        rw [← perform_getOrCreate _ S.clock]
        exact Except.ok.inj hans
      rw [hx]
      exact (session_sessionOf (ConvHistory.wf hstart h.left.left) S.clock (d i) (c i)).2
    · cases hy

/-- An event leaves every session alone, or is a lookup or a save that was accepted. -/
theorem ConvHistory.event_cases (hstart : Start S w d) {e : ConvEvent ι V}
    (h : ConvHistory S turn w d c (l ++ [e])) :
    ((ledgerAt S turn w (l ++ [e])).session = (ledgerAt S turn w l).session ∧
        (∀ k, isSave k e = false) ∧
        ∀ i uuid a x, e ≠ ⟨i, .store (.getOrCreate uuid a), .ok x⟩) ∨
      (∃ i uuid a x, e = ⟨i, .store (.getOrCreate uuid a), .ok x⟩ ∧
        x = ((ledgerAt S turn w l).perform S.clock (.getOrCreate uuid a)).1 ∧
        ledgerAt S turn w (l ++ [e]) =
          ((ledgerAt S turn w l).perform S.clock (.getOrCreate uuid a)).2 ∧
        a.key = x.key) ∨
      ∃ i x tid now uuid a, e = ⟨i, .store (.save (x.withTurn tid now)), .ok ()⟩ ∧
        (⟨i, .store (.getOrCreate uuid a), .ok x⟩ : ConvEvent ι V) ∈ l ∧
        x.roundCount < x.maxRounds ∧
        ∀ k, (ledgerAt S turn w (l ++ [e])).session k =
          if k = x.key then some ((x.withTurn tid now).kept S.clock)
          else (ledgerAt S turn w l).session k := by
  have heffect := ConvHistory.effect hstart h
  have hwf := ConvHistory.wf hstart h.left
  obtain ⟨i, op, ans⟩ := e
  have hasks : Asks (d i) (c i) (Pool.own i l) op := ConvHistory.asks h
  cases op with
  | runTurn t =>
    refine .inl ⟨congrArg _ heffect, fun k => rfl, fun i uuid a x hx => ?_⟩
    cases hx
  | store op =>
    rcases heffect with ⟨hans, hledger⟩ | ⟨⟨x, hx⟩, hledger⟩
    swap
    · refine .inl ⟨congrArg _ hledger, fun k => ?_, fun j uuid a y hy => ?_⟩
      · rw [show ans = .error x from hx]
        cases op <;> rfl
      · cases hy
        cases hx
    cases op with
    | getOrCreate uuid a =>
      rw [show ans = .ok _ from hans] at hledger ⊢
      refine .inr (.inl ⟨i, uuid, a, _, rfl, rfl, hledger, ?_⟩)
      cases hasks with
      | lookup _ =>
        have hkey := (session_sessionOf hwf S.clock (d i) (c i)).2
        rw [← perform_getOrCreate _ S.clock] at hkey
        exact hkey.symm
    | save y =>
      cases hasks with
      | @save x r hx hround _ =>
        rw [show ans = .ok _ from hans] at hledger ⊢
        refine .inr (.inr ⟨i, x, r.backendThreadId, (d i).now, _, _, rfl, Pool.mem_own.mp hx,
          hround, fun k => ?_⟩)
        have hallows : (ledgerAt S turn w l).Allows
            (.save ((x.withTurn r.backendThreadId (d i).now).kept S.clock)) := by
          have hobtained := (ConvHistory.sound hstart h.left).found hx
          exact hobtained
        rw [hledger]
        exact Ledger.save_session hwf hallows k
    | isProcessed sid mid =>
      exact .inl ⟨by rw [hledger]; rfl, fun k => rfl, fun j uuid a y hy => by cases hy⟩
    | markProcessed sid mid =>
      exact .inl ⟨by rw [hledger]; rfl, fun k => rfl, fun j uuid a y hy => by cases hy⟩

omit [DecidableEq ι] in
/-- A lookup leaves the other keys alone. -/
theorem lookup_frame {L : Ledger V} {clock : PyFloat → PyFloat} {uuid : String} {a : CreateArgs}
    (hk : k ≠ a.key) : (L.perform clock (.getOrCreate uuid a)).2.session k = L.session k := by
  simp only [Ledger.perform]
  split
  · rfl
  · rw [Ledger.create_session, if_neg hk]

/-- **Every history counts**, from a store that has no session for the key. -/
theorem ConvHistory.counted (hstart : Start S w d) (hnew : (S.view w.store).session k = none)
    (h : ConvHistory S turn w d c log) : Counted S turn w k log := by
  refine Pool.History.induct (P := Counted S turn w k) ?_ ?_ h
  · constructor
    · exact fun _ => ⟨rfl, fun i uuid a x hx => by cases hx⟩
    · intro s hs
      rw [show (ledgerAt S turn w []).session k = none from hnew] at hs
      cases hs
    · intro i uuid a x hx
      cases hx
  · intro l e hle hl
    rcases ConvHistory.event_cases hstart hle with ⟨hsession, hsave, hlookup⟩ |
      ⟨i, uuid, a, x, rfl, hx, hledger, hak⟩ |
      ⟨i, x, tid, now, uuid, a, rfl, hx, hround, hsession⟩
    · exact hl.frame (congrFun hsession k) (hsave k)
        (fun i uuid a x he => absurd he (hlookup i uuid a x))
    · by_cases hk : a.key = k
      · exact hl.lookup hk hx hledger
      · refine hl.frame ?_ rfl fun j uuid' a' y hy => ?_
        · rw [hledger, lookup_frame (Ne.symm hk)]
        · cases hy
          exact fun hyk => hk (hak.trans hyk)
    · by_cases hk : x.key = k
      · exact hl.save hx hk hround hsession
      · refine hl.frame ?_ ?_ fun j uuid' a' y hy => ?_
        · rw [hsession, if_neg (Ne.symm hk)]
        · simp only [isSave, Session.withTurn_key, hk, decide_false]
        · cases hy

/-! ## Serial histories count exactly -/

/-- Stored counters and snapshots are the saves made before them. -/
structure Exact (S : LawfulStore V σ) (turn : TurnFn V ε) (w : World σ ε) (k : Key)
    (log : List (ConvEvent ι V)) : Prop where
  stored : ∀ s, (ledgerAt S turn w log).session k = some s → s.roundCount = saves k log
  snapshot : ∀ (i : ι) (l₁ l₂ : List (ConvEvent ι V)) (uuid : String) (a : CreateArgs)
    (x : Session V), log = l₁ ++ ⟨i, .store (.getOrCreate uuid a), .ok x⟩ :: l₂ → x.key = k →
      x.roundCount = saves k l₁

omit [DecidableEq ι] in
/-- A lookup in a log with one more event was in the log, or is the event. -/
theorem Exact.snapshot_snoc (h : Exact S turn w k l) {e : ConvEvent ι V} {i : ι}
    {l₁ l₂ : List (ConvEvent ι V)} {uuid : String} {a : CreateArgs} {x : Session V}
    (hx : l ++ [e] = l₁ ++ ⟨i, .store (.getOrCreate uuid a), .ok x⟩ :: l₂) (hk : x.key = k) :
    x.roundCount = saves k l₁ ∨ (e = ⟨i, .store (.getOrCreate uuid a), .ok x⟩ ∧ l₁ = l) := by
  rcases List.eq_nil_or_concat l₂ with rfl | ⟨m, e', rfl⟩
  · obtain ⟨rfl, he⟩ := List.append_inj' hx rfl
    cases he
    exact .inr ⟨rfl, rfl⟩
  · refine .inl (h.snapshot i l₁ m uuid a x ?_ hk)
    have hx' : l ++ [e] = (l₁ ++ ⟨i, .store (.getOrCreate uuid a), .ok x⟩ :: m) ++ [e'] := by
      simpa only [List.concat_eq_append, List.append_assoc, List.cons_append] using hx
    exact (List.append_inj' hx' rfl).1

omit [DecidableEq ι] in
theorem Exact.frame (h : Exact S turn w k l) {e : ConvEvent ι V}
    (hsession : (ledgerAt S turn w (l ++ [e])).session k = (ledgerAt S turn w l).session k)
    (hsave : isSave k e = false)
    (hlookup : ∀ i uuid a x, e = ⟨i, .store (.getOrCreate uuid a), .ok x⟩ → x.key ≠ k) :
    Exact S turn w k (l ++ [e]) := by
  constructor
  · intro s hs
    rw [hsession] at hs
    rw [saves_snoc, hsave]
    exact h.stored s hs
  · intro i l₁ l₂ uuid a x hx hk
    rcases h.snapshot_snoc hx hk with hx | ⟨he, -⟩
    · exact hx
    · exact absurd hk (hlookup i uuid a x he)

omit [DecidableEq ι] in
/-- A lookup of the key finds the stored counter, or creates a session with none. -/
theorem Exact.lookup (h : Exact S turn w k l) (hc : Counted S turn w k l) {i : ι} {uuid : String}
    {a : CreateArgs} {x : Session V} (hk : a.key = k)
    (hx : x = ((ledgerAt S turn w l).perform S.clock (.getOrCreate uuid a)).1)
    (hledger : ledgerAt S turn w (l ++ [⟨i, .store (.getOrCreate uuid a), .ok x⟩]) =
      ((ledgerAt S turn w l).perform S.clock (.getOrCreate uuid a)).2) :
    Exact S turn w k (l ++ [⟨i, .store (.getOrCreate uuid a), .ok x⟩]) := by
  have hsaves : saves k (l ++ [⟨i, .store (.getOrCreate uuid a), .ok x⟩]) = saves k l := by
    rw [saves_snoc]
    rfl
  have hfound : (ledgerAt S turn w (l ++ [⟨i, .store (.getOrCreate uuid a), .ok x⟩])).session k =
      some x ∧ x.roundCount = saves k l := by
    simp only [Ledger.perform, hk] at hx hledger
    cases hs : (ledgerAt S turn w l).session k with
    | some s =>
      simp only [hs] at hx hledger
      rw [hledger, hx]
      exact ⟨hs, h.stored s hs⟩
    | none =>
      simp only [hs] at hx hledger
      rw [hledger, hx, Ledger.create_session, if_pos hk.symm, (hc.unknown hs).1]
      exact ⟨rfl, rfl⟩
  constructor
  · intro s hs
    rw [hfound.1] at hs
    cases hs
    rw [hsaves]
    exact hfound.2
  · intro j l₁ l₂ uuid' a' y hy hyk
    rcases h.snapshot_snoc hy hyk with hy | ⟨he, rfl⟩
    · exact hy
    · cases he
      exact hfound.2

omit [DecidableEq ι] in
/-- A save with no save since its lookup. -/
theorem Exact.save {l₁ l₂ : List (ConvEvent ι V)} {i : ι} {uuid : String} {a : CreateArgs}
    {x : Session V}
    (h : Exact S turn w k (l₁ ++ ⟨i, .store (.getOrCreate uuid a), .ok x⟩ :: l₂))
    (hk : x.key = k) (hquiet : ∀ e ∈ l₂, isSave k e = false) {tid : Option V} {now : PyFloat}
    {e : ConvEvent ι V} (he : e = ⟨i, .store (.save (x.withTurn tid now)), .ok ()⟩)
    (hsession : (ledgerAt S turn w
      (l₁ ++ ⟨i, .store (.getOrCreate uuid a), .ok x⟩ :: l₂ ++ [e])).session k =
        some ((x.withTurn tid now).kept S.clock)) :
    Exact S turn w k (l₁ ++ ⟨i, .store (.getOrCreate uuid a), .ok x⟩ :: l₂ ++ [e]) := by
  have hbefore : x.roundCount = saves k l₁ := h.snapshot i l₁ l₂ uuid a x rfl hk
  have hnone : saves k l₂ = 0 := by
    rw [saves, List.countP_eq_zero]
    intro e' he'
    rw [hquiet e' he']
    exact Bool.false_ne_true
  have hcount : saves k (l₁ ++ ⟨i, .store (.getOrCreate uuid a), .ok x⟩ :: l₂) =
      saves k l₁ := by
    rw [saves] at hnone ⊢
    rw [List.countP_append, List.countP_cons, hnone]
    rfl
  have hsave : isSave k e = true := by
    rw [he]
    simp only [isSave, Session.withTurn_key, hk, decide_true]
  constructor
  · intro s hs
    rw [hsession] at hs
    cases hs
    rw [saves_snoc, hcount, hsave, if_pos rfl, Session.kept_roundCount,
      Session.withTurn_roundCount, hbefore, Nat.cast_add, Nat.cast_one]
  · intro j m₁ m₂ uuid' a' y hy hyk
    rcases h.snapshot_snoc hy hyk with hy | ⟨he', -⟩
    · exact hy
    · rw [he] at he'
      cases he'

/-- **Every serial history counts exactly.** -/
theorem ConvHistory.exact (hstart : Start S w d) (hnew : (S.view w.store).session k = none)
    (h : ConvHistory S turn w d c log) (hserial : Serial k log) : Exact S turn w k log := by
  refine Pool.History.induct (P := fun l => Serial k l → Exact S turn w k l) ?_ ?_ h hserial
  · intro _
    constructor
    · intro s hs
      rw [show (ledgerAt S turn w []).session k = none from hnew] at hs
      cases hs
    · intro i l₁ l₂ uuid a x hx
      simp only [List.nil_eq, List.append_eq_nil_iff, reduceCtorEq, and_false] at hx
  · intro l e hle hl hser
    have hl := hl hser.left
    rcases ConvHistory.event_cases hstart hle with ⟨hsession, hsave, hlookup⟩ |
      ⟨i, uuid, a, x, rfl, hx, hledger, hak⟩ |
      ⟨i, x, tid, now, uuid, a, he, hx, hround, hsession⟩
    · exact hl.frame (congrFun hsession k) (hsave k)
        (fun i uuid a x he => absurd he (hlookup i uuid a x))
    · by_cases hk : a.key = k
      · exact hl.lookup (ConvHistory.counted hstart hnew hle.left) hk hx hledger
      · refine hl.frame ?_ rfl fun j uuid' a' y hy => ?_
        · rw [hledger, lookup_frame (Ne.symm hk)]
        · cases hy
          exact fun hyk => hk (hak.trans hyk)
    · by_cases hk : x.key = k
      · obtain ⟨l₁, l₂, rfl⟩ := List.append_of_mem hx
        refine hl.save hk ?_ he (by rw [hsession, if_pos hk.symm])
        refine hser i l₁ l₂ [] uuid a x (x.withTurn tid now) () ?_ hk
        rw [he]
        simp only [List.append_assoc, List.cons_append]
      · refine hl.frame ?_ ?_ fun j uuid' a' y hy => ?_
        · rw [hsession, if_neg (Ne.symm hk)]
        · rw [he]
          simp only [isSave, Session.withTurn_key, hk, decide_false]
        · rw [he] at hy
          cases hy

/-! ## Saves and returned calls -/

/-- The calls whose save on the key took effect. -/
def savers (k : Key) (log : List (ConvEvent ι V)) : Set ι :=
  {i | ∃ x u, (⟨i, .store (.save x), .ok u⟩ : ConvEvent ι V) ∈ log ∧ x.key = k}

omit [DecidableEq ι] in
theorem isSave_iff {e : ConvEvent ι V} :
    isSave k e = true ↔ ∃ i x u, e = ⟨i, .store (.save x), .ok u⟩ ∧ x.key = k := by
  constructor
  · intro he
    match e with
    | ⟨i, .store (.save x), .ok u⟩ => exact ⟨i, x, u, rfl, by simpa only [isSave,
        decide_eq_true_eq] using he⟩
    | ⟨_, .store (.save _), .error _⟩ => cases he
    | ⟨_, .store (.getOrCreate _ _), _⟩ => cases he
    | ⟨_, .store (.isProcessed _ _), _⟩ => cases he
    | ⟨_, .store (.markProcessed _ _), _⟩ => cases he
    | ⟨_, .runTurn _, _⟩ => cases he
  · rintro ⟨i, x, u, rfl, hk⟩
    simp only [isSave, hk, decide_true]

/-- Each call saves once at most. -/
theorem ConvHistory.savers_nodup (h : ConvHistory S turn w d c log) (k : Key) :
    ((log.filter (isSave k)).map (·.thread)).Nodup := by
  refine Pool.History.induct
    (P := fun l => ((l.filter (isSave k)).map (·.thread)).Nodup) List.nodup_nil ?_ h
  intro l e hle hl
  rw [List.filter_append, List.map_append, List.filter_singleton]
  cases he : isSave k e with
  | false => simpa only [cond_false, List.map_nil, List.append_nil] using hl
  | true =>
    obtain ⟨i, x, u, rfl, hk⟩ := isSave_iff.mp he
    have hasks : Asks (d i) (c i) (Pool.own i l) (.store (.save x)) := ConvHistory.asks hle
    refine List.nodup_append.mpr ⟨hl, List.nodup_singleton _, ?_⟩
    rintro j hj j' hj' rfl
    obtain rfl := List.mem_singleton.mp hj'
    obtain ⟨e', he', hthread⟩ := List.mem_map.mp hj
    obtain ⟨hmem, hsave⟩ := List.mem_filter.mp he'
    obtain ⟨j, y, v, rfl, -⟩ := isSave_iff.mp hsave
    cases hasks with
    | save _ _ first =>
      refine first y (.ok v) (Pool.mem_own.mpr ?_)
      rw [← hthread]
      exact hmem

theorem ConvHistory.saves_eq (h : ConvHistory S turn w d c log) (k : Key) :
    saves k log = (savers k log).ncard := by
  have hset : savers k log = (((log.filter (isSave k)).map (·.thread)).toFinset : Set ι) := by
    ext i
    simp only [savers, Set.mem_ofPred_eq, List.coe_toFinset, List.mem_map, List.mem_filter]
    constructor
    · rintro ⟨x, u, hx, hk⟩
      exact ⟨_, ⟨hx, isSave_iff.mpr ⟨i, x, u, rfl, hk⟩⟩, rfl⟩
    · rintro ⟨e, ⟨he, hsave⟩, rfl⟩
      obtain ⟨i, x, u, rfl, hk⟩ := isSave_iff.mp hsave
      exact ⟨x, u, he, hk⟩
  rw [hset, Set.ncard_coe_finset, List.toFinset_card_of_nodup (h.savers_nodup k), List.length_map,
    saves, List.countP_eq_length_filter]

/-- A call that returned saved the session it found, with one more round. -/
theorem Trace.save_of_ok {d : Draws} {c : Call V} {l : List (Did V)} {q : ConvProg V}
    (h : Trace d c l q) {r : AgentRunResult V} (hq : q = .ret (.ok r)) :
    ∃ s r', didLookup d c (.ok s) ∈ l ∧ didSave d s r' (.ok ()) ∈ l := by
  have hsaved : ∀ s r' rest, ∃ s' r'', didLookup d c (.ok s') ∈
      prelude d c s ++ didTurn c s (.ok r') :: didSave d s r' (.ok ()) :: rest ∧
      didSave d s' r'' (.ok ()) ∈
        prelude d c s ++ didTurn c s (.ok r') :: didSave d s r' (.ok ()) :: rest := by
    intro s r' rest
    refine ⟨s, r', List.mem_append_left _ (mem_prelude.mpr (.inl rfl)), List.mem_append_right _ ?_⟩
    exact List.mem_cons_of_mem _ List.mem_cons_self
  have hturn : ∀ s, handleTurn d c s ≠ .ret (.ok r) := by
    intro s hs
    by_cases hr : s.roundCount ≥ s.maxRounds
    · rw [handleTurn_exceeded d c hr] at hs
      cases hs
    · rw [handleTurn_runs d c hr] at hs
      cases hs
  cases h with
  | found s =>
    cases hmid : c.messageId with
    | none =>
      rw [handleCheck_none d hmid] at hq
      exact absurd hq (hturn s)
    | some mid =>
      rw [handleCheck_some d hmid] at hq
      cases hq
  | checked s hmid => exact absurd hq (hturn s)
  | saved s r' hr => exact hsaved s r' _
  | marked s r' hr hmid => exact hsaved s r' _
  | _ => cases hq

/-- A call that saved returns, unless the store refused to mark the message it had checked. -/
theorem Trace.ok_of_save {d : Draws} {c : Call V} {l : List (Did V)}
    {out : Except (Raised V) (AgentRunResult V)} {q : ConvProg V} (h : Trace d c l q)
    (hq : q = .ret out) {x : Session V} {u : Unit}
    (hx : (⟨.store (.save x), .ok u⟩ : Did V) ∈ l) :
    (∃ r, out = .ok r) ∨ ∃ s mid y, didCheck s mid (.ok false) ∈ l ∧
      didMark s mid (.error y) ∈ l := by
  have hprelude : ∀ s, (⟨.store (.save x), .ok u⟩ : Did V) ∉ prelude d c s := by
    intro s hs
    rcases mem_prelude.mp hs with hs | ⟨mid, -, hs⟩ <;> cases hs
  cases h with
  | start => cases hx
  | lookupFailed y => cases List.mem_singleton.mp hx
  | found s => cases List.mem_singleton.mp hx
  | checkFailed s y hmid => simp [didLookup, didCheck] at hx
  | duplicate s hmid => simp [didLookup, didCheck] at hx
  | checked s hmid => exact absurd hx (hprelude s)
  | turnFailed s y hr => simp [hprelude, didTurn] at hx
  | turned s r hr => simp [hprelude, didTurn] at hx
  | saveFailed s r y hr => simp [hprelude, didTurn, didSave] at hx
  | saved s r hr =>
    cases hmid : c.messageId with
    | none =>
      rw [handleMark_none hmid] at hq
      cases hq
      exact .inl ⟨r, rfl⟩
    | some mid =>
      rw [handleMark_some hmid] at hq
      cases hq
  | markFailed s r y hr hmid =>
    refine .inr ⟨s, _, y, List.mem_append_left _ (mem_prelude.mpr (.inr ⟨_, hmid, rfl⟩)), ?_⟩
    simp only [List.mem_append, List.mem_cons, true_or, or_true]
  | marked s r hr hmid =>
    cases hq
    exact .inl ⟨r, rfl⟩

/-- What is accepted is answered, and what is not raises. -/
theorem ConvHistory.accepts_iff (hstart : Start S w d) {i : ι} {op : StoreOp V}
    {a : ConvAns V (.store op)} (h : ConvHistory S turn w d c (l ++ [⟨i, .store op, a⟩])) :
    S.Accepts (ledgerAt S turn w l) op ↔ ∃ r, a = .ok r := by
  have hl := ConvHistory.sound hstart h.left
  have hallows := hl.allows hstart h
  have hans : a = liftStore (S.ops.perform op (Pool.replay (handler S.ops turn) w l).store).1 :=
    h.last.1
  constructor
  · intro ha
    refine ⟨((ledgerAt S turn w l).perform S.clock op).1, ?_⟩
    rw [hans, (S.accepted hl.inv hallows ha).1]
    rfl
  · rintro ⟨r, hr⟩
    by_contra ha
    obtain ⟨⟨x, hx⟩, -⟩ := S.refused hl.inv hallows ha
    rw [hans, hx] at hr
    cases hr

/-- A store that answered a duplicate check does not refuse the mark. -/
theorem ConvHistory.no_failed_mark (hstart : Start S w d) (h : ConvHistory S turn w d c log)
    {i j : ι} {sid mid : String} {b : Bool} {y : Raised V}
    (hcheck : (⟨i, .store (.isProcessed sid mid), .ok b⟩ : ConvEvent ι V) ∈ log)
    (hmark : (⟨j, .store (.markProcessed sid mid), .error y⟩ : ConvEvent ι V) ∈ log) : False := by
  obtain ⟨l₁, l₂, hl⟩ := List.append_of_mem hcheck
  obtain ⟨m₁, m₂, hm⟩ := List.append_of_mem hmark
  rw [List.append_cons] at hl hm
  have hcheck' : ConvHistory S turn w d c (l₁ ++ [⟨i, .store (.isProcessed sid mid), .ok b⟩]) := by
    rw [hl] at h
    exact h.left
  have hmark' : ConvHistory S turn w d c
      (m₁ ++ [⟨j, .store (.markProcessed sid mid), .error y⟩]) := by
    rw [hm] at h
    exact h.left
  have haccept := (ConvHistory.accepts_iff hstart hcheck').mpr ⟨b, rfl⟩
  obtain ⟨r, hr⟩ := (ConvHistory.accepts_iff hstart hmark').mp (S.accepts_message haccept).2
  cases hr

/-- The calls on the key that returned are those that saved, when all on the key have ended. -/
theorem returned_eq_savers (hstart : Start S w d) (h : ConvHistory S turn w d c log)
    {out : ι → Except (Raised V) (AgentRunResult V) → Prop}
    (hleads : ∀ i o, out i o → Trace (d i) (c i) (Pool.own i log) (.ret o))
    (hdone : ∀ i, (c i).key = k → ∃ o, out i o) :
    {i | (c i).key = k ∧ ∃ r, out i (.ok r)} = savers k log := by
  ext i
  simp only [savers, Set.mem_ofPred_eq]
  constructor
  · rintro ⟨hk, r, hr⟩
    obtain ⟨s, r', hs, hsave⟩ := (hleads i _ hr).save_of_ok rfl
    refine ⟨_, (), Pool.mem_own.mp hsave, ?_⟩
    rw [Session.withTurn_key, ConvHistory.lookup_key hstart h (Pool.mem_own.mp hs), hk]
  · rintro ⟨x, u, hx, hk⟩
    obtain ⟨l₁, l₂, hl⟩ := List.append_of_mem hx
    have hkey : (c i).key = k := by
      rw [List.append_cons] at hl
      have h' := h
      rw [hl] at h'
      have hasks : Asks (d i) (c i) (Pool.own i l₁) (.store (.save x)) :=
        ConvHistory.asks h'.left
      cases hasks with
      | @save s r hs _ _ =>
        have hfound : (⟨i, .store (.getOrCreate (d i).uuid (c i).createArgs), .ok s⟩ :
            ConvEvent ι V) ∈ log := by
          rw [hl]
          exact List.mem_append_left _ (List.mem_append_left _ (Pool.mem_own.mp hs))
        rw [← hk, Session.withTurn_key]
        exact (ConvHistory.lookup_key hstart h hfound).symm
    obtain ⟨o, ho⟩ := hdone i hkey
    refine ⟨hkey, ?_⟩
    rcases (hleads i o ho).ok_of_save rfl (Pool.mem_own.mpr hx) with ⟨r, rfl⟩ |
      ⟨s, mid, y, hcheck, hmark⟩
    · exact ⟨r, ho⟩
    · exact (ConvHistory.no_failed_mark hstart h (Pool.mem_own.mp hcheck)
        (Pool.mem_own.mp hmark)).elim

/-- **What a session counts.** In every interleaving of calls over a lawful store, for a key that
had no session at the start and once all calls on it have ended: its session counts no more rounds
than calls on it returned, nor more than its limit; and where no save on it falls between a call's
lookup and its save, it counts exactly the calls that returned, so they keep the limit. -/
theorem rounds_count_returned (S : LawfulStore V σ) (turn : TurnFn V ε) (w : World σ ε)
    (d : ι → Draws) (c : ι → Call V) (hstart : Start S w d) (k : Key)
    (hnew : (S.view w.store).session k = none) (schedule : List ι) :
    let p := (Pool.start w fun i => handle (d i) (c i)).run (handler S.ops turn) schedule
    let returned := {i | (c i).key = k ∧ ∃ r, p.Finished i (.ok r)}.ncard
    (∀ i, (c i).key = k → ∃ out, p.Finished i out) →
      ∀ s, (S.view p.shared.store).session k = some s →
        s.roundCount ≤ returned ∧ s.roundCount ≤ max 0 s.maxRounds ∧
          (Serial k p.log → s.roundCount = returned ∧ (returned : Int) ≤ max 0 s.maxRounds) := by
  intro p returned hdone s hs
  obtain ⟨hshared, hleads, h⟩ :=
    Pool.run_history (handler S.ops turn) w (fun i => handle (d i) (c i)) schedule
  have hsession : (ledgerAt S turn w p.log).session k = some s := by
    rw [ledgerAt, ← hshared]
    exact hs
  have hreturned : returned = saves k p.log := by
    rw [ConvHistory.saves_eq h k, ← returned_eq_savers hstart h (k := k) ?_ hdone]
    intro i o ho
    have htrace := Trace.of_leads (hleads i)
    rw [show ((Pool.start w fun i => handle (d i) (c i)).run (handler S.ops turn)
      schedule).threads i = .ret o from ho] at htrace
    exact htrace
  obtain ⟨hle, hlimit⟩ := (ConvHistory.counted hstart hnew h).stored s hsession
  rw [hreturned]
  refine ⟨hle, hlimit, fun hserial => ?_⟩
  have hexact := (ConvHistory.exact hstart hnew h hserial).stored s hsession
  exact ⟨hexact, hexact ▸ hlimit⟩

end Counting

/-- The key of the deliveries. -/
def deliveryKey : Key := ⟨"w", "feishu", "t"⟩

/-- One delivery returns, and its session counts it. -/
theorem rounds_count_returned_once :
    let p := (Pool.start freshWorld fun _ : Unit => handle (twoDraws true) (delivery "m1")).run
      (handler (memoryLawful String).ops (engineTurn echoEngine)) [(), (), (), (), ()]
    ∃ s, ((memoryLawful String).view p.shared.store).session deliveryKey = some s ∧
      s.roundCount =
        {i : Unit | (delivery "m1").key = deliveryKey ∧ ∃ r, p.Finished i (.ok r)}.ncard := by
  intro p
  have hstart : Start (memoryLawful String) freshWorld fun _ : Unit => twoDraws true :=
    ⟨twoDraws_start.inv, fun _ _ _ => rfl, fun _ => twoDraws_start.fresh true⟩
  obtain ⟨r, hr⟩ : ∃ r, p.Finished () (.ok r) := ⟨_, rfl⟩
  obtain ⟨-, -, hexact⟩ := rounds_count_returned (memoryLawful String) (engineTurn echoEngine)
    freshWorld (fun _ : Unit => twoDraws true) (fun _ => delivery "m1") hstart deliveryKey rfl
    [(), (), (), (), ()] (fun () _ => ⟨_, hr⟩) _ rfl
  exact ⟨_, rfl, (hexact (Serial.of_saves_le_one (Nat.le_of_eq rfl))).1⟩

/-- Two overlapping calls with different messages both return on a session limited to one round,
and the session counts one round. -/
theorem round_lost :
    (∃ r, (lockstep (fun i => if i then "m1" else "m2") 1).Finished true (.ok r)) ∧
      (∃ r, (lockstep (fun i => if i then "m1" else "m2") 1).Finished false (.ok r)) ∧
      ((lockstep (fun i => if i then "m1" else "m2") 1).shared.store.ledger.session
        deliveryKey).map (fun s => (s.roundCount, s.maxRounds)) = some (1, 1) :=
  ⟨⟨_, rfl⟩, ⟨_, rfl⟩, rfl⟩

end ClawEngine.Orchestration
