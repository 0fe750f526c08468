import ClawEngine.Core.Transition
import ClawEngine.Persistence.Lawful

/-!
# Session identity

A client asks a store for sessions, marks messages, and saves sessions of any content whose
`session_id` the store returned. What `get_or_create` returned is kept beside the store, so the
first answer for a natural key says which identity the key was created with.

A ledger **tracks** the answers when its sessions are the returned ones, each with the backend its
key was created with. The SQLite store's ledger always does, since its update leaves the columns of
the identity alone. `MemorySessionStore.save` overwrites them, so the memory store's ledger does as
long as no saved session has another key or backend than the one its id was created with; after such
a save the key resolves to the saved session.
-/

set_option autoImplicit false

namespace ClawEngine.Persistence

open ClawEngine.Core ClawEngine.Orchestration

variable {V σ : Type}

/-! ## Runs of a store -/

/-- An answered call of `get_or_create`. -/
abbrev Returned (V : Type) : Type := CreateArgs × Session V

/-- A store with the answers of `get_or_create`, oldest first. -/
structure Tracked (V σ : Type) where
  store : σ
  returned : List (Returned V)

/-- The ids that were returned. -/
def returnedIds (returned : List (Returned V)) : List String := returned.map (·.2.sessionId)

/-- The call that created a natural key: the first answered one. -/
def origin (returned : List (Returned V)) (k : Key) : Option (Returned V) :=
  returned.find? (·.1.key = k)

/-- The answers after one more operation. -/
def record (returned : List (Returned V)) :
    (op : StoreOp V) → Except StoreError op.Res → List (Returned V)
  | .getOrCreate _ a, .ok s => returned ++ [(a, s)]
  | _, _ => returned

/-- What the contract asks: the id drawn is new, and a saved session has a returned id. -/
def Permits (returned : List (Returned V)) : StoreOp V → Prop
  | .getOrCreate uuid _ => uuid ∉ returnedIds returned
  | .save s => s.sessionId ∈ returnedIds returned
  | .isProcessed _ _ => True
  | .markProcessed _ _ => True

instance (returned : List (Returned V)) : (op : StoreOp V) → Decidable (Permits returned op)
  | .getOrCreate uuid _ => inferInstanceAs (Decidable (uuid ∉ returnedIds returned))
  | .save s => inferInstanceAs (Decidable (s.sessionId ∈ returnedIds returned))
  | .isProcessed _ _ => inferInstanceAs (Decidable True)
  | .markProcessed _ _ => inferInstanceAs (Decidable True)

/-- A permitted operation. -/
def trackedStep (S : SessionStore V σ) (op : StoreOp V) (t : Tracked V σ) :
    Option (Tracked V σ) :=
  if Permits t.returned op then
    some ⟨(S.perform op t.store).2, record t.returned op (S.perform op t.store).1⟩
  else none

theorem trackedStep_eq_some {S : SessionStore V σ} {op : StoreOp V} {t t' : Tracked V σ} :
    trackedStep S op t = some t' ↔ Permits t.returned op ∧
      t' = ⟨(S.perform op t.store).2, record t.returned op (S.perform op t.store).1⟩ := by
  unfold trackedStep
  split
  · next h => rw [Option.some.injEq, eq_comm, and_iff_right h]
  · next h => simp only [reduceCtorEq, h, false_and]

/-- Whoever asks for the key is given the session of one id, under that key and with that backend. -/
def Resolves (S : SessionStore V σ) (store : σ) (k : Key) (sid backendName : String) : Prop :=
  ∀ uuid a, a.key = k → ∃ s, (S.getOrCreate uuid a store).1 = .ok s ∧ s.sessionId = sid ∧
    s.key = k ∧ s.backendName = backendName

/-- **Session identity is fixed**: every key resolves to the session it was created with, and no two
keys share a session id. -/
structure IdentityFixed (S : SessionStore V σ) (t : Tracked V σ) : Prop where
  resolves : ∀ {k a s}, origin t.returned k = some (a, s) →
    Resolves S t.store k s.sessionId a.backendName
  id_inj : ∀ {k k' x x'}, origin t.returned k = some x → origin t.returned k' = some x' →
    x.2.sessionId = x'.2.sessionId → k = k'

/-- A saved session has the key and the backend that its id was created with. -/
def KeepsIdentity (returned : List (Returned V)) : StoreOp V → Prop
  | .save s => ∀ k a x, origin returned k = some (a, x) → x.sessionId = s.sessionId →
    s.key = k ∧ s.backendName = a.backendName
  | _ => True

/-! ## The creation of a key -/

section Origin

variable {returned : List (Returned V)} {k : Key} {x : Returned V}

theorem origin_some (h : origin returned k = some x) : x ∈ returned ∧ x.1.key = k :=
  ⟨List.mem_of_find?_eq_some h, by simpa using List.find?_some h⟩

theorem exists_origin (hx : x ∈ returned) : ∃ y, origin returned x.1.key = some y := by
  refine Option.isSome_iff_exists.mp ?_
  rw [origin, List.find?_isSome]
  exact ⟨x, hx, by simp⟩

theorem origin_singleton (a : CreateArgs) (s : Session V) : origin [(a, s)] a.key = some (a, s) := by
  simp only [origin, List.find?_singleton, decide_true, if_true]

/-- The creations after one more answer: the earlier ones, and this one for a new key. -/
theorem origin_append {a : CreateArgs} {s : Session V}
    (h : origin (returned ++ [(a, s)]) k = some x) :
    origin returned k = some x ∨ (origin returned a.key = none ∧ k = a.key ∧ x = (a, s)) := by
  simp only [origin] at h ⊢
  rw [List.find?_append] at h
  cases hk : returned.find? (·.1.key = k) with
  | some y => rw [hk] at h; exact .inl h
  | none =>
    rw [hk, Option.none_or, List.find?_singleton] at h
    split at h
    · next hkey =>
      cases h
      obtain rfl : a.key = k := by simpa using hkey
      exact .inr ⟨hk, rfl, rfl⟩
    · cases h

end Origin

/-! ## Ledgers that track the answers -/

/-- The sessions of a ledger are the returned ones, with the backends of their creation. -/
structure Tracks (L : Ledger V) (returned : List (Returned V)) : Prop where
  kept : ∀ {x}, x ∈ returned → ∃ s, L.session x.1.key = some s ∧ s.sessionId = x.2.sessionId
  asked : ∀ {k s}, L.session k = some s →
    ∃ x ∈ returned, x.1.key = k ∧ x.2.sessionId = s.sessionId
  named : ∀ {k s x}, L.session k = some s → origin returned k = some x →
    s.backendName = x.1.backendName

namespace Tracks

variable {L L' : Ledger V} {returned : List (Returned V)} {clock : PyFloat → PyFloat}

theorem empty : Tracks (Ledger.empty : Ledger V) [] where
  kept h := by cases h
  asked h := by cases h
  named h := by cases h

theorem knows_iff (h : Tracks L returned) {sid : String} :
    L.Knows sid ↔ sid ∈ returnedIds returned := by
  constructor
  · rintro ⟨k, s, hs, rfl⟩
    obtain ⟨x, hx, -, hid⟩ := h.asked hs
    exact List.mem_map.mpr ⟨x, hx, hid⟩
  · intro hsid
    obtain ⟨x, hx, rfl⟩ := List.mem_map.mp hsid
    obtain ⟨s, hs, hid⟩ := h.kept hx
    exact ⟨_, s, hs, hid⟩

/-- The session of a created key. -/
theorem session_of_origin (h : Tracks L returned) {k : Key} {x : Returned V}
    (hx : origin returned k = some x) : ∃ s, L.session k = some s ∧
      s.sessionId = x.2.sessionId ∧ s.backendName = x.1.backendName := by
  obtain ⟨hmem, rfl⟩ := origin_some hx
  obtain ⟨s, hs, hid⟩ := h.kept hmem
  exact ⟨s, hs, hid, h.named hs hx⟩

/-- Operations that leave the sessions. -/
theorem congr (h : Tracks L returned) (hsession : L'.session = L.session) :
    Tracks L' returned where
  kept hx := by rw [hsession]; exact h.kept hx
  asked hs := by rw [hsession] at hs; exact h.asked hs
  named hs := by rw [hsession] at hs; exact h.named hs

/-- A session of a new key. -/
theorem create (h : Tracks L returned) {uuid : String} {a : CreateArgs}
    (hnone : L.session a.key = none) :
    Tracks (L.create uuid a) (returned ++ [(a, Session.create uuid a)]) where
  kept := by
    intro x hx
    rw [Ledger.create_session]
    rcases List.mem_append.mp hx with hx | hx
    · obtain ⟨s, hs, hid⟩ := h.kept hx
      have hne : x.1.key ≠ a.key := by
        intro heq
        rw [heq, hnone] at hs
        cases hs
      rw [if_neg hne]
      exact ⟨s, hs, hid⟩
    · rw [List.mem_singleton.mp hx, if_pos rfl]
      exact ⟨_, rfl, rfl⟩
  asked := by
    intro k s hs
    rw [Ledger.create_session] at hs
    split at hs
    · next hk =>
      cases hs
      exact ⟨_, List.mem_append_right _ (List.mem_singleton_self _), hk.symm, rfl⟩
    · obtain ⟨x, hx, hk, hid⟩ := h.asked hs
      exact ⟨x, List.mem_append_left _ hx, hk, hid⟩
  named := by
    intro k s x hs hx
    rw [Ledger.create_session] at hs
    rcases origin_append hx with hx | ⟨-, rfl, rfl⟩
    · obtain ⟨hmem, rfl⟩ := origin_some hx
      obtain ⟨s', hs', -⟩ := h.kept hmem
      split at hs
      · next hk =>
        rw [hk, hnone] at hs'
        cases hs'
      · exact h.named hs hx
    · rw [if_pos rfl] at hs
      cases hs
      rfl

/-- The session of a key that was created before. -/
theorem again (h : Tracks L returned) {a : CreateArgs} {s : Session V}
    (hs : L.session a.key = some s) : Tracks L (returned ++ [(a, s)]) where
  kept := by
    intro x hx
    rcases List.mem_append.mp hx with hx | hx
    · exact h.kept hx
    · rw [List.mem_singleton.mp hx]
      exact ⟨s, hs, rfl⟩
  asked := by
    intro k y hy
    obtain ⟨x, hx, hk, hid⟩ := h.asked hy
    exact ⟨x, List.mem_append_left _ hx, hk, hid⟩
  named := by
    intro k y x hy hx
    rcases origin_append hx with hx | ⟨hnone, -, -⟩
    · exact h.named hy hx
    · obtain ⟨z, hz, hk, -⟩ := h.asked hs
      obtain ⟨o, ho⟩ := exists_origin hz
      rw [hk, hnone] at ho
      cases ho

/-- An update by id. -/
theorem save (h : Tracks L returned) (s : Session V) : Tracks (L.save s) returned where
  kept := by
    intro x hx
    obtain ⟨y, hy, hid⟩ := h.kept hx
    have hsaved : ∃ y', (L.perform id (.save s)).2.session x.1.key = some y' ∧
        y'.sessionId = y.sessionId ∧ y'.key = y.key ∧ y'.backendName = y.backendName :=
      Ledger.perform_session_of_some hy _
    obtain ⟨y', hy', hid', -⟩ := hsaved
    exact ⟨y', hy', hid'.trans hid⟩
  asked := by
    intro k y hy
    obtain ⟨y₀, hy₀, rfl⟩ := Option.map_eq_some_iff.mp hy
    obtain ⟨x, hx, hk, hid⟩ := h.asked hy₀
    refine ⟨x, hx, hk, hid.trans ?_⟩
    split <;> rfl
  named := by
    intro k y x hy hx
    obtain ⟨y₀, hy₀, rfl⟩ := Option.map_eq_some_iff.mp hy
    rw [← h.named hy₀ hx]
    split <;> rfl

/-- **Where keys resolve to the sessions of a ledger that tracks the answers, identity is fixed.** -/
theorem identityFixed {S : SessionStore V σ} {t : Tracked V σ} (h : Tracks L t.returned)
    (hL : L.WF) (hresolve : ∀ uuid a s, L.session a.key = some s →
      (S.getOrCreate uuid a t.store).1 = .ok s) : IdentityFixed S t where
  resolves := by
    intro k a s hk uuid a' ha'
    obtain ⟨x, hx, hid, hname⟩ := h.session_of_origin hk
    refine ⟨x, hresolve uuid a' x (ha' ▸ hx), hid, hL.key_eq hx, hname⟩
  id_inj := by
    intro k k' x x' hx hx' heq
    obtain ⟨s, hs, hid, -⟩ := h.session_of_origin hx
    obtain ⟨s', hs', hid', -⟩ := h.session_of_origin hx'
    exact hL.id_inj hs hs' (hid.trans (heq.trans hid'.symm))

end Tracks

/-- `get_or_create` of a lawful store. -/
theorem LawfulStore.tracks_getOrCreate (S : LawfulStore V σ) {s : σ} (hinv : S.Inv s)
    {returned : List (Returned V)} (h : Tracks (S.view s) returned) {uuid : String}
    (hfresh : uuid ∉ returnedIds returned) (a : CreateArgs) :
    Tracks (S.view (S.ops.getOrCreate uuid a s).2)
      (record returned (.getOrCreate uuid a) (S.ops.getOrCreate uuid a s).1) := by
  have hallows : (S.view s).Allows (.getOrCreate uuid a) := mt h.knows_iff.mp hfresh
  have hcases : ((S.ops.getOrCreate uuid a s).1 =
        .ok ((S.view s).perform S.clock (.getOrCreate uuid a)).1 ∧
      S.view (S.ops.getOrCreate uuid a s).2 =
        ((S.view s).perform S.clock (.getOrCreate uuid a)).2) ∨
      ((∃ e, (S.ops.getOrCreate uuid a s).1 = .error e) ∧
        S.view (S.ops.getOrCreate uuid a s).2 = S.view s) := S.perform_cases hinv hallows
  rcases hcases with ⟨hans, hview⟩ | ⟨⟨e, hans⟩, hview⟩
  · rw [hans, hview]
    cases hs : (S.view s).session a.key with
    | none =>
      simp only [Ledger.perform, hs]
      exact h.create hs
    | some x =>
      simp only [Ledger.perform, hs]
      exact h.again hs
  · rw [hans, hview]
    exact h

/-! ## MemorySessionStore -/

namespace MemoryStore

/-- What the runs of a memory store keep. -/
structure Keeps (t : Tracked V (MemoryStore V)) : Prop where
  inv : t.store.Inv
  tracks : Tracks t.store.ledger t.returned

variable {t t' : Tracked V (MemoryStore V)} {op : StoreOp V}

theorem Keeps.identityFixed (h : Keeps t) : IdentityFixed memorySessionStore t := by
  refine h.tracks.identityFixed h.inv.wf fun uuid a s hs => ?_
  obtain ⟨hbyId, hk⟩ := h.inv.session_iff.mp hs
  have hkey : t.store.keyToId a.key = some s.sessionId := hk ▸ h.inv.owned hbyId
  simp only [memorySessionStore, getOrCreate, hkey, hbyId]

/-- A session of a returned id, with the identity of that id, is one the store returned. -/
theorem Keeps.allows_save (h : Keeps t) {s : Session V} (hid : s.sessionId ∈ returnedIds t.returned)
    (hkeeps : KeepsIdentity t.returned (.save s)) : t.store.ledger.Allows (.save s) := by
  obtain ⟨x, hx, hxid⟩ := List.mem_map.mp hid
  obtain ⟨⟨a, y⟩, ho⟩ := exists_origin hx
  obtain ⟨row, hrow, hrowid, hname⟩ := h.tracks.session_of_origin ho
  obtain ⟨row', hrow', hrowid'⟩ := h.tracks.kept hx
  rw [hrow] at hrow'
  cases hrow'
  obtain ⟨hkey, hbackend⟩ := hkeeps _ a y ho (hrowid.symm.trans (hrowid'.trans hxid))
  exact ⟨row, hkey ▸ hrow, hrowid'.trans hxid, hname.trans hbackend.symm⟩

/-- **A step with the identity of the ids keeps what the runs keep.** -/
theorem Keeps.step (h : Keeps t) (hstep : trackedStep memorySessionStore op t = some t')
    (hkeeps : KeepsIdentity t.returned op) : Keeps t' := by
  obtain ⟨hpermits, rfl⟩ := trackedStep_eq_some.mp hstep
  cases op with
  | getOrCreate uuid a =>
    have hallows : t.store.ledger.Allows (.getOrCreate uuid a) :=
      mt h.tracks.knows_iff.mp hpermits
    exact ⟨(memoryLawful V).inv_perform h.inv hallows,
      (memoryLawful V).tracks_getOrCreate h.inv h.tracks hpermits a⟩
  | save s =>
    obtain ⟨hinv, hledger⟩ := h.inv.save (h.allows_save hpermits hkeeps)
    refine ⟨hinv, ?_⟩
    have htracks := h.tracks.save s
    rw [← hledger] at htracks
    exact htracks
  | isProcessed sid mid => exact ⟨h.inv, h.tracks⟩
  | markProcessed sid mid => exact ⟨(h.inv.mark sid mid).1, h.tracks.congr rfl⟩

/-- After a save the key of its id resolves to the saved session. -/
theorem Keeps.keepsIdentity (h : Keeps t) (hstep : trackedStep memorySessionStore op t = some t')
    (hfixed : IdentityFixed memorySessionStore t') : KeepsIdentity t.returned op := by
  obtain ⟨-, rfl⟩ := trackedStep_eq_some.mp hstep
  cases op with
  | save s =>
    intro k a x ho hid
    obtain ⟨row, hrow, hrowid, -⟩ := h.tracks.session_of_origin ho
    obtain ⟨hbyId, rfl⟩ := h.inv.session_iff.mp hrow
    have hkey : (MemoryStore.save s t.store).2.keyToId row.key = some s.sessionId := by
      simp only [MemoryStore.save, Function.update_apply]
      split
      · rfl
      · rw [h.inv.owned hbyId, hrowid, hid]
    have hsaved : (MemoryStore.save s t.store).2.byId s.sessionId = some s :=
      Function.update_self ..
    obtain ⟨y, hy, -, hyk, hyname⟩ := hfixed.resolves ho "" { a with key := row.key } rfl
    simp only [memorySessionStore, SessionStore.perform, getOrCreate, hkey, hsaved,
      Except.ok.injEq] at hy
    subst hy
    exact ⟨hyk, hyname⟩
  | getOrCreate uuid a => trivial
  | isProcessed sid mid => trivial
  | markProcessed sid mid => trivial

theorem Keeps.empty : Keeps (⟨.empty, []⟩ : Tracked V (MemoryStore V)) :=
  ⟨Inv.empty, Tracks.empty⟩

end MemoryStore

/-! ## SqliteSessionStore -/

namespace SqliteStore

/-- A message row changes no session. -/
theorem insertProcessed_sessions {D : Dialect} {sid mid : String} {db db' : Db}
    (h : db.insertProcessed D sid mid = .ok db') : db'.sessions = db.sessions := by
  unfold Db.insertProcessed at h
  split at h
  · cases h
  · split at h
    · split at h
      · cases h
      · cases h
        rfl
    · cases h

theorem markProcessed_sessions (sid mid : String) (db : Db) :
    (markProcessed sid mid db).2.sessions = db.sessions := by
  unfold markProcessed
  split
  · rfl
  · rfl
  · next h => exact insertProcessed_sessions h

theorem isProcessed_snd (sid mid : String) (db : Db) : (isProcessed sid mid db).2 = db := by
  unfold isProcessed
  split <;> rfl

/-- A save updates by id, whatever else the session holds. -/
theorem tracks_save {db : Db} {returned : List (Returned String)}
    (h : Tracks db.ledger returned) {s : Session String}
    (hid : s.sessionId ∈ returnedIds returned) : Tracks (save s db).2.ledger returned := by
  have hknows := h.knows_iff.mpr hid
  by_cases htakes : Dialect.sqlite.Takes db.ledger (.save s)
  · simp only [save, Db.updateSession_of_takes hknows htakes, Db.ledger_setSession]
    exact h.save _
  · obtain ⟨e, he⟩ := Db.updateSession_of_not_takes hknows htakes
    simp only [save, he]
    exact h

/-- **Every step keeps the ledger on track.** -/
theorem tracks_step {t t' : Tracked String Db} {op : StoreOp String}
    (h : Tracks t.store.ledger t.returned)
    (hstep : trackedStep sqliteSessionStore op t = some t') :
    Tracks t'.store.ledger t'.returned := by
  obtain ⟨hpermits, rfl⟩ := trackedStep_eq_some.mp hstep
  cases op with
  | getOrCreate uuid a => exact sqliteLawful.tracks_getOrCreate trivial h hpermits a
  | save s => exact tracks_save h hpermits
  | isProcessed sid mid =>
    refine h.congr ?_
    exact congrArg (fun db : Db => db.ledger.session) (isProcessed_snd sid mid t.store)
  | markProcessed sid mid =>
    refine h.congr ?_
    have hsessions := markProcessed_sessions sid mid t.store
    funext k
    exact congrArg (List.find? (·.key = k)) hsessions

theorem identityFixed {t : Tracked String Db} (h : Tracks t.store.ledger t.returned) :
    IdentityFixed sqliteSessionStore t := by
  refine h.identityFixed (Db.ledger_wf _) fun uuid a s hs => ?_
  have hbind : Dialect.sqlite.refusal
      [a.key.workspaceId, a.key.channel, a.key.externalThreadKey] [] = none := rfl
  simp only [sqliteSessionStore, getOrCreate, Db.selectSession_of_binds hbind, hs,
    Option.toList_some]

end SqliteStore

/-! ## Both stores -/

/-- **Session identity.** In a memory store it stays fixed throughout a run exactly if no save gives
an id another key or backend than it was created with. In a SQLite store it is fixed after every
run. -/
theorem session_identity :
    (∀ (ops : List (StoreOp V)) (t : Tracked V (MemoryStore V)),
      Run (trackedStep memorySessionStore) ⟨.empty, []⟩ ops t →
      ((∀ pre t', pre <+: ops → Run (trackedStep memorySessionStore) ⟨.empty, []⟩ pre t' →
          IdentityFixed memorySessionStore t') ↔
        ∀ pre op t', pre ++ [op] <+: ops →
          Run (trackedStep memorySessionStore) ⟨.empty, []⟩ pre t' →
          KeepsIdentity t'.returned op)) ∧
    ∀ (ops : List (StoreOp String)) (t : Tracked String Db),
      Run (trackedStep sqliteSessionStore) ⟨.empty, []⟩ ops t →
      IdentityFixed sqliteSessionStore t := by
  constructor
  · intro ops t hrun
    rw [Run.throughout_congr (fun _ => MemoryStore.Keeps.identityFixed)
      (fun hstep hkeeps hfixed => hkeeps.step hstep (hkeeps.keepsIdentity hstep hfixed))
      MemoryStore.Keeps.empty]
    refine Run.throughout_iff (fun hstep hkeeps => ⟨fun h => ?_, hkeeps.step hstep⟩) hrun
      MemoryStore.Keeps.empty
    exact hkeeps.keepsIdentity hstep h.identityFixed
  · intro ops t hrun
    have htracks : Tracks t.store.ledger t.returned :=
      hrun.invariant (P := fun t => Tracks t.store.ledger t.returned)
        (fun hstep h => SqliteStore.tracks_step h hstep) Tracks.empty
    exact SqliteStore.identityFixed htracks

/-- The creation of a thread's session. -/
def threadArgs : CreateArgs := ⟨⟨"w", "feishu", "t1"⟩, "codex", 50⟩

/-- A session is created, and saved as `s`. -/
def createThenSave (s : Session String) : List (StoreOp String) :=
  [.getOrCreate "s1" threadArgs, .save s]

/-- The store after the creation. -/
def afterCreate (S : SessionStore String σ) (store : σ) : Tracked String σ :=
  ⟨(S.getOrCreate "s1" threadArgs store).2, [(threadArgs, Session.create "s1" threadArgs)]⟩

section CreateThenSave

variable {S : SessionStore String σ} {store : σ}

theorem create_step
    (hcreate : (S.getOrCreate "s1" threadArgs store).1 = .ok (Session.create "s1" threadArgs)) :
    trackedStep S (.getOrCreate "s1" threadArgs) ⟨store, []⟩ = some (afterCreate S store) := by
  refine trackedStep_eq_some.mpr ⟨List.not_mem_nil, ?_⟩
  simp only [SessionStore.perform, hcreate, record, List.nil_append, afterCreate]

theorem createThenSave_run {s : Session String} (hid : s.sessionId = "s1")
    (hcreate : (S.getOrCreate "s1" threadArgs store).1 = .ok (Session.create "s1" threadArgs)) :
    Run (trackedStep S) ⟨store, []⟩ (createThenSave s)
      ⟨(S.save s (afterCreate S store).store).2, (afterCreate S store).returned⟩ := by
  refine Run.cons (create_step hcreate) (Run.cons (trackedStep_eq_some.mpr ⟨?_, rfl⟩) .nil)
  simp only [Permits, returnedIds, afterCreate, hid, List.map_cons, List.map_nil,
    List.mem_singleton, Session.create_sessionId]

/-- The save is the only step that could change an identity. -/
theorem createThenSave_keeps {s : Session String}
    (hcreate : (S.getOrCreate "s1" threadArgs store).1 = .ok (Session.create "s1" threadArgs))
    (hkey : s.key = threadArgs.key) (hname : s.backendName = threadArgs.backendName)
    {pre : List (StoreOp String)} {op : StoreOp String} {t : Tracked String σ}
    (hpre : pre ++ [op] <+: createThenSave s) (ht : Run (trackedStep S) ⟨store, []⟩ pre t) :
    KeepsIdentity t.returned op := by
  rcases pre with _ | ⟨x, _ | ⟨y, pre⟩⟩
  · obtain rfl : op = .getOrCreate "s1" threadArgs := by
      simpa [createThenSave] using hpre
    trivial
  · obtain ⟨rfl, rfl⟩ : x = .getOrCreate "s1" threadArgs ∧ op = .save s := by
      simpa [createThenSave] using hpre
    obtain rfl := ht.unique (Run.cons (create_step hcreate) .nil)
    intro k a x ho hid
    obtain ⟨hmem, hk⟩ := origin_some ho
    cases List.mem_singleton.mp hmem
    exact ⟨hkey.trans hk, hname⟩
  · simp [createThenSave] at hpre

end CreateThenSave

/-- The session after a turn. -/
def afterTurn : Session String :=
  (Session.create "s1" threadArgs).withTurn (some "thread") (.finite 1)

theorem session_identity_turn :
    (∃ t, Run (trackedStep memorySessionStore) ⟨.empty, []⟩ (createThenSave afterTurn) t ∧
      IdentityFixed memorySessionStore t) ∧
    ∃ t, Run (trackedStep sqliteSessionStore) ⟨.empty, []⟩ (createThenSave afterTurn) t ∧
      IdentityFixed sqliteSessionStore t := by
  have hmemory : Run (trackedStep memorySessionStore) ⟨.empty, []⟩ (createThenSave afterTurn) _ :=
    createThenSave_run rfl rfl
  have hsqlite : Run (trackedStep sqliteSessionStore) ⟨.empty, []⟩ (createThenSave afterTurn) _ :=
    createThenSave_run rfl rfl
  refine ⟨⟨_, hmemory, ?_⟩, ⟨_, hsqlite, (session_identity (V := String)).2 _ _ hsqlite⟩⟩
  exact (session_identity.1 _ _ hmemory).mpr
    (fun pre op t' => createThenSave_keeps rfl rfl rfl) _ _ (List.prefix_refl _) hmemory

/-- The session with the key of another thread. -/
def otherThread : Session String := { afterTurn with externalThreadKey := "t2" }

/-- A save under another thread's key takes the session from its own. -/
theorem save_moves_session :
    ∃ t, Run (trackedStep memorySessionStore) ⟨.empty, []⟩ (createThenSave otherThread) t ∧
      ¬ IdentityFixed memorySessionStore t := by
  refine ⟨_, createThenSave_run rfl rfl, ?_⟩
  intro hfixed
  obtain ⟨s, hs, -, hkey, -⟩ := hfixed.resolves (origin_singleton _ _) "s2" threadArgs rfl
  have hmoved : s = otherThread := (Except.ok.inj hs).symm
  subst hmoved
  revert hkey
  decide

end ClawEngine.Persistence
