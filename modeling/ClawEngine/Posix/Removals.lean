import ClawEngine.Posix.Returns

/-!
# When removing returns

`shutil.rmtree` of a directory, on a machine whose operations meet no fault: it returns unless a
directory in it is too deep for the recursion. The last part is about paths: one that led to a
directory, and still does once entries of that directory are gone, does not lead through them.
-/

set_option autoImplicit false

namespace ClawEngine.Posix

open ClawEngine.Core ClawEngine.Core.Act

variable {C : Type}

/-- A removal that may call itself `fuel` times reaches every directory of the tree. -/
def Shallow (fuel : Nat) (t : Tree C) : Prop := ∀ rel, t rel = some .dir → rel.length < fuel

theorem calm_cuts (T : Location) : Cuts (Calm (C := C)) T where
  tick _ _ h := h
  prune _ _ h _ := h

/-! ## When removing a directory returns -/

section Removing

variable {t : Tree C} {m m' : Machine C} {q : Location} {remove : Location → Fs C Unit} {fuel : Nat}

theorem shallow_succ : Shallow (fuel + 1) t ↔ ∀ name, Shallow fuel (t.under name) := by
  constructor
  · exact fun h name rel hrel => Nat.lt_of_succ_lt_succ (h (name :: rel) hrel)
  · intro h rel hrel
    cases rel with
    | nil => exact Nat.succ_pos fuel
    | cons name rel => exact Nat.succ_lt_succ (h name rel hrel)

/-- The removal of one entry. -/
def removeEntry (remove : Location → Fs C Unit) (q : Location) (entry : String × EntryKind) :
    Fs C Unit :=
  match entry.2 with
  | .dir => remove (q ++ [entry.1])
  | _ => (unlinkAt (q ++ [entry.1])).mapError .os

theorem removeEntries_cons (q : Location) (entry : String × EntryKind)
    (entries : List (String × EntryKind)) : removeEntries remove q (entry :: entries) =
      removeEntry remove q entry >>= fun _ => removeEntries remove q entries := by
  obtain ⟨name, kind⟩ := entry
  cases kind <;> rfl

/-- What is no directory is unlinked. -/
theorem unlinkAt_calm (hcalm : Calm m) {e : Entry C} (he : m.disk.get? q = some e) (hdir : e ≠ .dir) :
    unlinkAt q m = (.ok (), { m.next with disk := m.disk.prune q }) := by
  refine (bind_of_ok hcalm.check).trans ?_
  have he' : m.next.disk.get? q = some e := he
  simp only [he']
  cases e with
  | dir => exact absurd rfl hdir
  | file content => rfl
  | link target => rfl

/-- Removing a tree changes nothing beside it. -/
theorem removeTree_confined (hok : removeTree fuel q m = (.ok (), m')) : Confined q m m' := by
  have hcuts : Cuts (Spares (Beside q) m) q := Spares.cuts fun r hr hqr => hr hqr
  exact .of_spares ((hcuts.removeTree fuel (List.prefix_refl q)).of_eq (.refl _ m) hok)

/-- An entry that was removed is gone, and nothing beside it has changed. -/
theorem removeEntry_removes {name : String} (hcalm : Calm m) {e : Entry C}
    (he : m.disk.get? (q ++ [name]) = some e)
    (hok : removeEntry (removeTree fuel) q (name, e.kind) m = (.ok (), m')) :
    Confined (q ++ [name]) m m' ∧ Calm m' ∧ m'.disk.get? (q ++ [name]) = none := by
  have hunlink : e ≠ .dir → (unlinkAt (q ++ [name])).mapError FsError.os m = (.ok (), m') →
      Confined (q ++ [name]) m m' ∧ Calm m' ∧ m'.disk.get? (q ++ [name]) = none := by
    intro hdir hok
    have hdone := mapError_eq_ok.mp hok
    rw [unlinkAt_calm hcalm he hdir] at hdone
    cases hdone
    have hspares : Spares (Beside (q ++ [name])) m m.next := .of_disk rfl rfl
    refine ⟨.of_spares (hspares.prune fun r hr hqr => hr hqr), hcalm, ?_⟩
    exact (Disk.get?_prune _ (List.concat_ne_nil name q) _).trans (if_pos List.prefix_rfl)
  cases e with
  | dir =>
    refine ⟨removeTree_confined hok, ?_, ?_⟩
    · exact ((calm_cuts _).removeTree fuel List.prefix_rfl).of_eq hcalm hok
    · exact removeTree_gone (List.concat_ne_nil name q) hok List.prefix_rfl
  | file content => exact hunlink nofun hok
  | link target => exact hunlink nofun hok

/-- The other entries are still there. -/
theorem entries_after {first : String} {entries : List (String × EntryKind)}
    (hstep : Within q {first} m m') (hnew : first ∉ entries.map Prod.fst)
    (h : ∀ entry ∈ entries, ∃ e, m.disk.get? (q ++ [entry.1]) = some e ∧ e.kind = entry.2) :
    ∀ entry ∈ entries, ∃ e, m'.disk.get? (q ++ [entry.1]) = some e ∧ e.kind = entry.2 := by
  intro entry hentry
  obtain ⟨e, he, hkind⟩ := h entry hentry
  have hne : entry.1 ∉ ({first} : Set String) := by
    intro heq
    rw [← Set.mem_singleton_iff.mp heq] at hnew
    exact hnew (List.mem_map_of_mem hentry)
  exact ⟨e, by rw [hstep.same_at hne List.prefix_rfl, he], hkind⟩

/-- What a removal of entries that returned leaves: they are gone. -/
theorem removeEntries_removes (entries : List (String × EntryKind))
    (hnodup : (entries.map Prod.fst).Nodup) (hcalm : Calm m)
    (hentries : ∀ entry ∈ entries, ∃ e, m.disk.get? (q ++ [entry.1]) = some e ∧ e.kind = entry.2)
    (hok : removeEntries (removeTree fuel) q entries m = (.ok (), m')) :
    Within q {name | name ∈ entries.map Prod.fst} m m' ∧ Calm m' ∧
      ∀ name ∈ entries.map Prod.fst, m'.disk.get? (q ++ [name]) = none := by
  induction entries generalizing m with
  | nil =>
    cases hok
    exact ⟨.refl _ _ _, hcalm, nofun⟩
  | cons entry entries ih =>
    obtain ⟨first, kind⟩ := entry
    obtain ⟨e, he, rfl⟩ := hentries _ List.mem_cons_self
    obtain ⟨hnew, hnodup⟩ := List.nodup_cons.mp hnodup
    rw [removeEntries_cons] at hok
    obtain ⟨_, m₁, hremove, hrest⟩ := bind_eq_ok.mp hok
    obtain ⟨hconfined, hcalm₁, hgone⟩ := removeEntry_removes hcalm he hremove
    have hstep : Within q {first} m m₁ := .of_confined rfl hconfined
    have hentries₁ := entries_after hstep hnew fun entry hentry =>
      hentries entry (List.mem_cons_of_mem _ hentry)
    obtain ⟨hwithin, hcalm', hgone'⟩ := ih hnodup hcalm₁ hentries₁ hrest
    refine ⟨?_, hcalm', fun name hname => ?_⟩
    · refine (hstep.mono ?_).trans (hwithin.mono fun name hname => List.mem_cons_of_mem _ hname)
      exact Set.singleton_subset_iff.mpr List.mem_cons_self
    · rcases List.mem_cons.mp hname with rfl | hname
      · rw [hwithin.same_at hnew List.prefix_rfl, hgone]
      · exact hgone' name hname

/-- **The removal of entries** returns exactly if no directory in them is too deep. -/
theorem removeEntries_returns (ih : ∀ {m : Machine C} {q : Location}, Calm m →
      m.disk.get? q = some .dir → (Returns (removeTree fuel q) m ↔ Shallow fuel (m.disk.treeAt q)))
    (entries : List (String × EntryKind)) (hnodup : (entries.map Prod.fst).Nodup) (hcalm : Calm m)
    (hentries : ∀ entry ∈ entries, ∃ e, m.disk.get? (q ++ [entry.1]) = some e ∧ e.kind = entry.2) :
    Returns (removeEntries (removeTree fuel) q entries) m ↔
      ∀ name ∈ entries.map Prod.fst, Shallow fuel (m.disk.treeAt (q ++ [name])) := by
  induction entries generalizing m with
  | nil => exact iff_of_true (returns_pure () m) fun _ h => absurd h List.not_mem_nil
  | cons entry entries ih' =>
    obtain ⟨first, kind⟩ := entry
    obtain ⟨e, he, rfl⟩ := hentries _ List.mem_cons_self
    obtain ⟨hnew, hnodup⟩ := List.nodup_cons.mp hnodup
    have hfirst : Returns (removeEntry (removeTree fuel) q (first, e.kind)) m ↔
        Shallow fuel (m.disk.treeAt (q ++ [first])) := by
      have hunlink : e ≠ .dir → (Returns ((unlinkAt (q ++ [first])).mapError FsError.os) m ↔
          Shallow fuel (m.disk.treeAt (q ++ [first]))) := by
        intro hdir
        refine iff_of_true (returns_mapError.mpr ⟨_, _, unlinkAt_calm hcalm he hdir⟩) ?_
        intro rel hrel
        -- nothing stands below what is no directory
        rcases eq_or_ne rel [] with rfl | hne
        · rw [Disk.treeAt, List.append_nil, he] at hrel
          exact absurd (Option.some.inj hrel) hdir
        · have habove := Disk.ancestor_dir hne hrel
          rw [he] at habove
          exact absurd (Option.some.inj habove) hdir
      cases e with
      | dir => exact ih hcalm he
      | file content => exact hunlink (by intro heq; cases heq)
      | link target => exact hunlink (by intro heq; cases heq)
    rw [removeEntries_cons, returns_bind, List.map_cons, List.forall_mem_cons, ← hfirst]
    have hrest : ∀ m₁, removeEntry (removeTree fuel) q (first, e.kind) m = (.ok (), m₁) →
        (Returns (removeEntries (removeTree fuel) q entries) m₁ ↔
          ∀ name ∈ entries.map Prod.fst, Shallow fuel (m.disk.treeAt (q ++ [name]))) := by
      intro m₁ hremove
      obtain ⟨hconfined, hcalm₁, -⟩ := removeEntry_removes hcalm he hremove
      have hstep : Within q {first} m m₁ := .of_confined rfl hconfined
      rw [ih' hnodup hcalm₁ (entries_after hstep hnew fun entry hentry =>
        hentries entry (List.mem_cons_of_mem _ hentry))]
      refine forall₂_congr fun name hname => ?_
      have htree : m₁.disk.treeAt (q ++ [name]) = m.disk.treeAt (q ++ [name]) :=
        funext fun rel => hstep.same_at (fun heq => hnew (heq ▸ hname)) (List.prefix_append _ rel)
      rw [htree]
    constructor
    · rintro ⟨u, m₁, hremove, hreturns⟩
      exact ⟨⟨u, m₁, hremove⟩, (hrest m₁ hremove).mp hreturns⟩
    · rintro ⟨⟨u, m₁, hremove⟩, hshallow⟩
      exact ⟨u, m₁, hremove, (hrest m₁ hremove).mpr hshallow⟩

/-- **Removing a directory returns exactly if it is not too deep.** -/
theorem removeTree_returns (fuel : Nat) (hcalm : Calm m) (hdir : m.disk.get? q = some .dir) :
    Returns (removeTree fuel q) m ↔ Shallow fuel (m.disk.treeAt q) := by
  induction fuel generalizing m q with
  | zero =>
    refine iff_of_false (not_returns_raise _ _) fun hshallow => ?_
    refine Nat.not_lt_zero _ (hshallow [] ?_)
    rwa [Disk.treeAt, List.append_nil]
  | succ fuel ih =>
    have hnodup : ((listing m.disk q).map Prod.fst).Nodup := by
      rw [listing_map_fst]
      exact Disk.children_nodup _ _
    have hentries : ∀ entry ∈ listing m.disk q,
        ∃ e, m.disk.get? (q ++ [entry.1]) = some e ∧ e.kind = entry.2 := fun _ => of_mem_listing
    have hloop : Returns (removeEntries (removeTree fuel) q (listing m.disk q)) m ↔
        Shallow (fuel + 1) (m.disk.treeAt q) := by
      rw [removeEntries_returns ih _ hnodup hcalm hentries, listing_map_fst, shallow_succ]
      simp only [Disk.mem_children, Disk.treeAt_under]
      refine forall_congr' fun name => ⟨fun hshallow => ?_, fun hshallow _ => hshallow⟩
      by_cases hthere : (m.disk.get? (q ++ [name])).isSome
      · exact hshallow hthere
      · intro rel hrel
        rcases eq_or_ne rel [] with rfl | hne
        · rw [Disk.treeAt, List.append_nil] at hrel
          exact absurd (Option.isSome_of_eq_some hrel) hthere
        · exact absurd (Option.isSome_of_eq_some (Disk.ancestor_dir hne hrel)) hthere
    rw [← hloop]
    constructor
    · rintro ⟨u, m', hok⟩
      obtain ⟨entries, m₁, hread, hok⟩ := bind_eq_ok.mp hok
      cases hread
      obtain ⟨u, m₂, hremoved, -⟩ := bind_eq_ok.mp hok
      exact ⟨u, m₂, hremoved⟩
    · rintro ⟨u, m₁, hremoved⟩
      obtain ⟨hwithin, hcalm₁, hgone⟩ := removeEntries_removes _ hnodup hcalm hentries hremoved
      have hstill : m₁.disk.get? q = some .dir :=
        (hwithin.sameOutside.2 q fun hne => hne.2 rfl).trans hdir
      have hempty : m₁.disk.children q = [] := by
        refine List.eq_nil_iff_forall_not_mem.mpr fun name hname => ?_
        have hsome := Disk.mem_children.mp hname
        have hlisted : name ∈ (listing m.disk q).map Prod.fst := by
          by_contra hnot
          rw [hwithin.same_at hnot List.prefix_rfl] at hsome
          rw [listing_map_fst] at hnot
          exact hnot (Disk.mem_children.mpr hsome)
        rw [hgone name hlisted] at hsome
        cases hsome
      have hrmdir : rmdirAt q m₁ = (.ok (), { m₁.next with disk := m₁.disk.prune q }) := by
        refine (bind_of_ok hcalm₁.check).trans ?_
        have hdir' : m₁.next.disk.isDirAt q = true := Disk.isDirAt_iff.mpr hstill
        have hempty' : m₁.next.disk.children q = [] := hempty
        simp only [hdir', hempty', if_true]
        rfl
      exact ⟨(), _, bind_eq_ok.mpr ⟨_, m, rfl, bind_eq_ok.mpr
        ⟨u, m₁, hremoved, mapError_eq_ok.mpr hrmdir⟩⟩⟩

/-- **`rmtree` of a directory by its location** returns exactly if it is not too deep. -/
theorem rmtree_returns (depth : Nat) (hcalm : Calm m) (hdir : m.disk.get? q = some .dir) :
    Returns (rmtree depth ⟨true, q⟩) m ↔ Shallow depth (m.disk.treeAt q) := by
  rw [← removeTree_returns depth hcalm hdir]
  have hlook : lookup m false ⟨true, q⟩ = .found q := lookup_located hdir rfl
  show Returns (_ >>= _) m ↔ _
  rw [returns_bind]
  constructor
  · rintro ⟨r, m₁, hread, hreturns⟩
    obtain ⟨hr, rfl⟩ := readE_eq_ok.mp hread
    simp only [hlook, hdir] at hr
    cases hr
    exact hreturns
  · intro hreturns
    refine ⟨q, m, readE_eq_ok.mpr ⟨?_, rfl⟩, hreturns⟩
    simp only [hlook, hdir]

end Removing

/-! ## Ways that do not lead through what is removed -/

section Ways

variable {d d' b : Disk C}

/-- Whatever of `d` is a way, and is left in `d'`, is one in `b`. -/
def WaysMeet (d d' b : Disk C) : Prop := ∀ q, d'.get? q = none ∨
  b.get? q = d.get? q ∧ (d.get? q = some .dir → d'.get? q = some .dir) ∧
    ∀ target, d.get? q = some (.link target) → d'.get? q = some (.link target)

/-- A walk that leads to a directory in `d` and in `d'` does in `b`. -/
theorem walkWith_meet {onLink onLink' onLinkB : Location → List String → Lookup} {cur p : Location}
    {names : List String} (hmeet : WaysMeet d d' b) (hp : d.get? p = some .dir)
    (hlink : ∀ start todo, onLink start todo = .found p → onLink' start todo = .found p →
      onLinkB start todo = .found p)
    (h : walkWith d true onLink cur names = .found p)
    (h' : walkWith d' true onLink' cur names = .found p) :
    walkWith b true onLinkB cur names = .found p := by
  induction names generalizing cur with
  | nil => exact h
  | cons name rest ih =>
    rw [walkWith] at h h' ⊢
    split at h
    next hdot =>
      rw [if_pos hdot] at h' ⊢
      exact ih h h'
    next hdot =>
    rw [if_neg hdot] at h' ⊢
    split at h
    next hup =>
      rw [if_pos hup] at h' ⊢
      exact ih h h'
    next hup =>
    rw [if_neg hup] at h' ⊢
    rcases hmeet (cur ++ [name]) with hgone | ⟨hsame, hdirs, hlinks⟩
    · rw [hgone] at h'
      dsimp only at h'
      split at h' <;> cases h'
    rw [hsame]
    split at h
    · split at h <;> cases h
    next hdir =>
      rw [hdirs hdir] at h'
      exact ih h h'
    next hfile =>
      split at h
      · cases h
        rw [hp] at hfile
        cases hfile
      · cases h
    next target hl =>
      rw [hlinks target hl] at h'
      dsimp only at h h' ⊢
      rw [if_neg fun hand => Bool.noConfusion hand.2] at h h' ⊢
      exact hlink _ _ h h'

theorem walk_meet {n : Nat} {cur p : Location} {names : List String} (hmeet : WaysMeet d d' b)
    (hp : d.get? p = some .dir) (h : walk d true n cur names = .found p)
    (h' : walk d' true n cur names = .found p) : walk b true n cur names = .found p := by
  induction n generalizing cur names with
  | zero => exact walkWith_meet hmeet hp (fun _ _ hl => by cases hl) h h'
  | succ n ih => exact walkWith_meet hmeet hp (fun _ _ => ih) h h'

/-- **A path that leads to a directory in both leads there in what they share.** -/
theorem Leads.meet {m m' mb : Machine C} {dest : PosixPath} {R : Location} (h : Leads m dest R)
    (h' : Leads m' dest R) (hwork : m'.workdir = m.workdir) (hworkb : mb.workdir = m.workdir)
    (hmeet : WaysMeet m.disk m'.disk mb.disk) : Leads mb dest R := by
  have hdir : mb.disk.get? R = some .dir := by
    rcases hmeet R with hgone | ⟨hsame, -⟩
    · rw [h'.dir] at hgone
      cases hgone
    · rw [hsame, h.dir]
  refine ⟨hdir, ?_⟩
  have hfound := h.found
  have hfound' := h'.found
  unfold lookup at hfound hfound' ⊢
  split at hfound
  next habs =>
    rw [if_pos habs] at hfound' ⊢
    exact walk_meet hmeet h.dir hfound hfound'
  next habs =>
    rw [if_neg habs] at hfound' ⊢
    split at hfound
    · cases hfound
    next hnil =>
      rw [if_neg hnil, hwork] at hfound'
      rw [if_neg hnil, hworkb]
      exact walk_meet hmeet h.dir hfound hfound'

/-- **Where a path still leads once entries are gone that were left alone**, it does without
them. -/
theorem Leads.without {m m₂ m₃ : Machine C} {dest : PosixPath} {R : Location} {names : List String}
    {Z : Set Location} (h : Leads m dest R) (hexpands : Expands Z m m₂)
    (hremoved : Removed R names m₂ m₃) (hend : Leads m₃ dest R) :
    Leads (m.without R names) dest R := by
  have hwithout := Removed.without R names m
  refine h.meet hend (hremoved.workdir.trans hexpands.workdir) hwithout.workdir fun q => ?_
  by_cases hgone : ∃ s ∈ names, R ++ [s] <+: q
  · obtain ⟨s, hs, hq⟩ := hgone
    exact .inl (hremoved.gone s hs q hq)
  · have hkept : ∀ s ∈ names, ¬ R ++ [s] <+: q := fun s hs hq => hgone ⟨s, hs, hq⟩
    rw [hremoved.kept q hkept, hwithout.kept q hkept]
    exact .inr ⟨rfl, hexpands.kept.dir, fun _ => hexpands.kept.link⟩

/-- Conversely, it then leads there once they are gone, whatever was made before. -/
theorem Leads.removed {m m₂ m₃ : Machine C} {dest : PosixPath} {R : Location} {names : List String}
    {Z : Set Location} (h : Leads (m.without R names) dest R) (hexpands : Expands Z m m₂)
    (hremoved : Removed R names m₂ m₃) : Leads m₃ dest R := by
  have hwithout := Removed.without R names m
  have hkept : ∀ q e, (m.without R names).disk.get? q = some e →
      (∀ s ∈ names, ¬ R ++ [s] <+: q) ∧ m.disk.get? q = some e := by
    intro q e he
    refine ⟨fun s hs hq => ?_, hwithout.shrinks.entries q e he⟩
    rw [hwithout.gone s hs q hq] at he
    cases he
  refine h.ways ⟨fun q hq => ?_, fun q target hq => ?_⟩
    ((hremoved.workdir.trans hexpands.workdir).trans hwithout.workdir.symm)
  · obtain ⟨hout, hdir⟩ := hkept q _ hq
    rw [hremoved.kept q hout, hexpands.kept.dir hdir]
  · obtain ⟨hout, hlink⟩ := hkept q _ hq
    rw [hremoved.kept q hout, hexpands.kept.link hlink]

end Ways

end ClawEngine.Posix
