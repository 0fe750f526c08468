import ClawEngine.Persistence.Contracts
import Mathlib.Logic.Function.Basic

/-!
# What a session store is for

A **ledger** is the abstract session store: at most one session for a natural key, and the messages
processed in each session. Its operations are total; `Ledger.Allows` is the contract of the store
protocol, under which they are used: the ids drawn are fresh, a saved session was obtained from
`get_or_create`, and messages are checked and marked in sessions that exist.

A **lawful** store is one that keeps a ledger. It may refuse an operation (a field that does not
pass its validation, a value its columns cannot hold); a refusal raises and changes nothing, and
every operation it accepts answers and acts as the ledger's. What is proved of lawful stores holds
of each implementation (`Persistence/Lawful.lean`).
-/

set_option autoImplicit false

namespace ClawEngine.Persistence

open ClawEngine.Core ClawEngine.Orchestration

variable {V : Type}

/-- The sessions by natural key, and the processed messages by session id. -/
@[ext]
structure Ledger (V : Type) where
  session : Key → Option (Session V)
  processed : String → String → Bool

/-- The four columns an update writes. -/
def Session.overwrite (old new : Session V) : Session V :=
  { old with backendThreadId := new.backendThreadId, roundCount := new.roundCount
             maxRounds := new.maxRounds, lastActive := new.lastActive }

@[simp] theorem Session.overwrite_sessionId (old new : Session V) :
    (old.overwrite new).sessionId = old.sessionId := rfl

@[simp] theorem Session.overwrite_key (old new : Session V) :
    (old.overwrite new).key = old.key := rfl

/-- A session of the same id, key and backend is overwritten to the new one. -/
theorem Session.overwrite_eq {old new : Session V} (hid : old.sessionId = new.sessionId)
    (hkey : old.key = new.key) (hname : old.backendName = new.backendName) :
    old.overwrite new = new := by
  cases old
  cases new
  simp only [Session.key, Key.mk.injEq] at hid hkey hname
  obtain ⟨rfl, rfl, rfl⟩ := hkey
  subst hid hname
  rfl

/-- The session a store keeps of one it is given, where its clock column rounds by `clock`. -/
def Session.kept (clock : PyFloat → PyFloat) (s : Session V) : Session V :=
  { s with lastActive := clock s.lastActive }

@[simp] theorem Session.kept_sessionId (clock : PyFloat → PyFloat) (s : Session V) :
    (s.kept clock).sessionId = s.sessionId := rfl

@[simp] theorem Session.kept_key (clock : PyFloat → PyFloat) (s : Session V) :
    (s.kept clock).key = s.key := rfl

@[simp] theorem Session.kept_roundCount (clock : PyFloat → PyFloat) (s : Session V) :
    (s.kept clock).roundCount = s.roundCount := rfl

@[simp] theorem Session.kept_maxRounds (clock : PyFloat → PyFloat) (s : Session V) :
    (s.kept clock).maxRounds = s.maxRounds := rfl

@[simp] theorem Session.kept_id (s : Session V) : s.kept id = s := rfl

namespace Ledger

/-- Nothing kept. -/
def empty : Ledger V := ⟨fun _ => none, fun _ _ => false⟩

/-- A new session for a key. -/
def create (uuid : String) (a : CreateArgs) (L : Ledger V) : Ledger V :=
  { L with session := Function.update L.session a.key (some (Session.create uuid a)) }

/-- The update of the session of one id. -/
def save (s : Session V) (L : Ledger V) : Ledger V :=
  { L with session := fun k =>
      (L.session k).map fun x => if x.sessionId = s.sessionId then x.overwrite s else x }

/-- One more processed message. -/
def mark (sid mid : String) (L : Ledger V) : Ledger V :=
  { L with processed := fun x y => L.processed x y || (x = sid && y = mid) }

/-- The four operations. -/
def perform (clock : PyFloat → PyFloat) : (op : StoreOp V) → Ledger V → op.Res × Ledger V
  | .getOrCreate uuid a, L =>
    match L.session a.key with
    | some s => (s, L)
    | none => ((Session.create uuid a : Session V), L.create uuid a)
  | .save s, L => ((), L.save (s.kept clock))
  | .isProcessed sid mid, L => (L.processed sid mid, L)
  | .markProcessed sid mid, L => ((), L.mark sid mid)

/-- A session of the ledger has the id. -/
def Knows (L : Ledger V) (sid : String) : Prop :=
  ∃ k s, L.session k = some s ∧ s.sessionId = sid

/-- The session was returned by `get_or_create`: the ledger has one of its key, id and backend. -/
def Obtained (L : Ledger V) (s : Session V) : Prop :=
  ∃ x, L.session s.key = some x ∧ x.sessionId = s.sessionId ∧ x.backendName = s.backendName

/-- The contract of the protocol. -/
def Allows (L : Ledger V) : StoreOp V → Prop
  | .getOrCreate uuid _ => ¬ L.Knows uuid
  | .save s => L.Obtained s
  | .isProcessed sid _ => L.Knows sid
  | .markProcessed sid _ => L.Knows sid

/-- Sessions are under their own keys, and no two have one id. -/
structure WF (L : Ledger V) : Prop where
  key_eq : ∀ {k s}, L.session k = some s → s.key = k
  id_inj : ∀ {k k' s s'}, L.session k = some s → L.session k' = some s' →
    s.sessionId = s'.sessionId → k = k'

variable {L : Ledger V} {clock : PyFloat → PyFloat}

@[simp] theorem create_processed (uuid : String) (a : CreateArgs) (L : Ledger V) :
    (L.create uuid a).processed = L.processed := rfl

@[simp] theorem save_processed (s : Session V) (L : Ledger V) :
    (L.save s).processed = L.processed := rfl

@[simp] theorem mark_session (sid mid : String) (L : Ledger V) :
    (L.mark sid mid).session = L.session := rfl

theorem mark_processed (sid mid x y : String) (L : Ledger V) :
    (L.mark sid mid).processed x y = true ↔ L.processed x y = true ∨ (x = sid ∧ y = mid) := by
  simp only [mark, Bool.or_eq_true, Bool.and_eq_true, decide_eq_true_eq]

theorem create_session (uuid : String) (a : CreateArgs) (L : Ledger V) (k : Key) :
    (L.create uuid a).session k =
      if k = a.key then some (Session.create uuid a) else L.session k :=
  Function.update_apply ..

/-- Within the contract a save replaces the session of its key. -/
theorem save_session (hL : L.WF) {s : Session V} (h : L.Allows (.save s)) (k : Key) :
    (L.save s).session k = if k = s.key then some s else L.session k := by
  obtain ⟨x, hx, hid, hname⟩ := h
  by_cases hk : k = s.key
  · subst hk
    simp only [save, hx, Option.map_some, hid, if_true,
      Session.overwrite_eq hid (hL.key_eq hx) hname]
  · simp only [save, hk, if_false]
    cases hy : L.session k with
    | none => rfl
    | some y =>
      have hne : y.sessionId ≠ s.sessionId := fun h => hk (hL.id_inj hy hx (h.trans hid.symm))
      simp only [Option.map_some, hne, if_false]

/-- A save refers to the session it was obtained from also after its clock was rounded. -/
theorem allows_save_kept {s : Session V} :
    L.Allows (.save (s.kept clock)) ↔ L.Allows (.save s) := Iff.rfl

theorem WF.create (hL : L.WF) {uuid : String} {a : CreateArgs} (h : ¬ L.Knows uuid) :
    (L.create uuid a).WF where
  key_eq := by
    intro k s hs
    rw [create_session] at hs
    split at hs
    · next hk => cases hs; exact hk.symm
    · exact hL.key_eq hs
  id_inj := by
    intro k k' s s' hs hs' heq
    rw [create_session] at hs hs'
    split at hs <;> split at hs'
    · next hk hk' => exact hk.trans hk'.symm
    · cases hs; exact absurd ⟨k', s', hs', heq.symm⟩ h
    · cases hs'; exact absurd ⟨k, s, hs, heq⟩ h
    · exact hL.id_inj hs hs' heq

theorem WF.save (hL : L.WF) {s : Session V} (h : L.Allows (.save s)) : (L.save s).WF where
  key_eq := by
    intro k y hy
    rw [save_session hL h] at hy
    split at hy
    · next hk => cases hy; exact hk.symm
    · exact hL.key_eq hy
  id_inj := by
    intro k k' y y' hy hy' heq
    obtain ⟨x, hx, hid, -⟩ := id h
    rw [save_session hL h] at hy hy'
    split at hy <;> split at hy'
    · next hk hk' => exact hk.trans hk'.symm
    · next hk _ => cases hy; rw [hk]; exact hL.id_inj hx hy' (hid.trans heq)
    · next _ hk' => cases hy'; rw [hk']; exact hL.id_inj hy hx (heq.trans hid.symm)
    · exact hL.id_inj hy hy' heq

theorem WF.mark (hL : L.WF) (sid mid : String) : (L.mark sid mid).WF := ⟨hL.key_eq, hL.id_inj⟩

/-- **Every operation within the contract keeps a ledger well formed.** -/
theorem WF.perform (hL : L.WF) {op : StoreOp V} (h : L.Allows op) : (L.perform clock op).2.WF := by
  cases op with
  | getOrCreate uuid a =>
    simp only [Ledger.perform]
    split
    · exact hL
    · exact hL.create h
  | save s => exact hL.save (allows_save_kept.mpr h)
  | isProcessed sid mid => exact hL
  | markProcessed sid mid => exact hL.mark sid mid

/-- A session is never forgotten: it keeps its key, its id and its backend. -/
theorem perform_session_of_some {k : Key} {s : Session V} (hs : L.session k = some s)
    (op : StoreOp V) : ∃ s', (L.perform clock op).2.session k = some s' ∧
      s'.sessionId = s.sessionId ∧ s'.key = s.key ∧ s'.backendName = s.backendName := by
  cases op with
  | getOrCreate uuid a =>
    simp only [perform]
    split
    · exact ⟨s, hs, rfl, rfl, rfl⟩
    · next hnone =>
      have hk : k ≠ a.key := by
        rintro rfl
        rw [hs] at hnone
        cases hnone
      refine ⟨s, ?_, rfl, rfl, rfl⟩
      rw [create_session, if_neg hk, hs]
  | save x =>
    simp only [perform, save, hs, Option.map_some]
    split
    · exact ⟨_, rfl, rfl, rfl, rfl⟩
    · exact ⟨_, rfl, rfl, rfl, rfl⟩
  | isProcessed sid mid => exact ⟨s, hs, rfl, rfl, rfl⟩
  | markProcessed sid mid => exact ⟨s, hs, rfl, rfl, rfl⟩

theorem Knows.perform {sid : String} (h : L.Knows sid) (op : StoreOp V) :
    (L.perform clock op).2.Knows sid := by
  obtain ⟨k, s, hs, rfl⟩ := h
  obtain ⟨s', hs', hid, -⟩ := perform_session_of_some hs op
  exact ⟨k, s', hs', hid⟩

/-- A processed message stays processed. -/
theorem processed_perform {sid mid : String} (h : L.processed sid mid = true) (op : StoreOp V) :
    (L.perform clock op).2.processed sid mid = true := by
  cases op with
  | getOrCreate uuid a =>
    simp only [perform]
    split <;> exact h
  | save s => exact h
  | isProcessed x y => exact h
  | markProcessed x y => exact (mark_processed ..).mpr (.inl h)

theorem Obtained.knows {s : Session V} (h : L.Obtained s) : L.Knows s.sessionId := by
  obtain ⟨x, hx, hid, -⟩ := h
  exact ⟨s.key, x, hx, hid⟩

theorem Obtained.perform {s : Session V} (h : L.Obtained s) (op : StoreOp V) :
    (L.perform clock op).2.Obtained s := by
  obtain ⟨x, hx, hid, hname⟩ := h
  obtain ⟨y, hy, hyid, -, hyname⟩ := perform_session_of_some hx op
  exact ⟨y, hy, hyid.trans hid, hyname.trans hname⟩

/-- What `get_or_create` returns it has. -/
theorem obtained_getOrCreate (hL : L.WF) (uuid : String) (a : CreateArgs) :
    (L.perform clock (.getOrCreate uuid a)).2.Obtained
      (L.perform clock (.getOrCreate uuid a)).1 := by
  simp only [Ledger.perform]
  cases hs : L.session a.key with
  | some s => exact ⟨s, by rw [hL.key_eq hs]; exact hs, rfl, rfl⟩
  | none =>
    refine ⟨Session.create uuid a, ?_, rfl, rfl⟩
    simp only [create_session, Session.create_key, if_true]

/-- Only `get_or_create` makes an id known, the one it is supplied with. -/
theorem knows_perform {sid : String} {op : StoreOp V} (h : (L.perform clock op).2.Knows sid) :
    L.Knows sid ∨ ∃ a, op = .getOrCreate sid a := by
  obtain ⟨k, s, hs, rfl⟩ := h
  cases op with
  | getOrCreate uuid a =>
    simp only [Ledger.perform] at hs
    split at hs
    · exact .inl ⟨k, s, hs, rfl⟩
    · rw [create_session] at hs
      split at hs
      · cases hs
        exact .inr ⟨a, rfl⟩
      · exact .inl ⟨k, s, hs, rfl⟩
  | save x =>
    simp only [Ledger.perform, save, Option.map_eq_some_iff] at hs
    obtain ⟨y, hy, rfl⟩ := hs
    refine .inl ⟨k, y, hy, ?_⟩
    split <;> rfl
  | isProcessed sid mid => exact .inl ⟨k, s, hs, rfl⟩
  | markProcessed sid mid => exact .inl ⟨k, s, hs, rfl⟩

end Ledger

/-! ## Stores that keep a ledger -/

/-- A store, with the ledger each of its states is, the operations it accepts there, and the laws
that it then acts as the ledger and otherwise raises and changes nothing. -/
structure LawfulStore (V σ : Type) where
  ops : SessionStore V σ
  Inv : σ → Prop
  view : σ → Ledger V
  clock : PyFloat → PyFloat
  Accepts : Ledger V → StoreOp V → Prop
  wf : ∀ {s}, Inv s → (view s).WF
  accepted : ∀ {s op}, Inv s → (view s).Allows op → Accepts (view s) op →
    (ops.perform op s).1 = .ok ((view s).perform clock op).1 ∧
      Inv (ops.perform op s).2 ∧ view (ops.perform op s).2 = ((view s).perform clock op).2
  refused : ∀ {s op}, Inv s → (view s).Allows op → ¬ Accepts (view s) op →
    (∃ e, (ops.perform op s).1 = .error e) ∧ (ops.perform op s).2 = s
  /-- A message a store accepts once it accepts always. -/
  accepts_message : ∀ {L L' sid mid}, Accepts L (.isProcessed sid mid) →
    Accepts L' (.isProcessed sid mid) ∧ Accepts L' (.markProcessed sid mid)

namespace LawfulStore

variable {σ : Type} (S : LawfulStore V σ) {s : σ} {op : StoreOp V}

theorem inv_perform (h : S.Inv s) (hop : (S.view s).Allows op) :
    S.Inv (S.ops.perform op s).2 := by
  by_cases ha : S.Accepts (S.view s) op
  · exact (S.accepted h hop ha).2.1
  · rw [(S.refused h hop ha).2]
    exact h

/-- An operation either was accepted, or raised and changed nothing. -/
theorem perform_cases (h : S.Inv s) (hop : (S.view s).Allows op) :
    ((S.ops.perform op s).1 = .ok ((S.view s).perform S.clock op).1 ∧
        S.view (S.ops.perform op s).2 = ((S.view s).perform S.clock op).2) ∨
      ((∃ e, (S.ops.perform op s).1 = .error e) ∧
        S.view (S.ops.perform op s).2 = S.view s) := by
  by_cases ha : S.Accepts (S.view s) op
  · obtain ⟨h₁, -, h₂⟩ := S.accepted h hop ha
    exact .inl ⟨h₁, h₂⟩
  · obtain ⟨h₁, h₂⟩ := S.refused h hop ha
    exact .inr ⟨h₁, by rw [h₂]⟩

end LawfulStore

end ClawEngine.Persistence
