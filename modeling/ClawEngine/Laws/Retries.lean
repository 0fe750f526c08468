import ClawEngine.Laws.Confinement
import ClawEngine.Laws.ForgottenSkills
import ClawEngine.Posix.Interrupted

/-!
# Calls that raise, and are made again

A call of `provision` that raises leaves the skills directory half way: some skills are copied, the
last of them perhaps in part, some that are no longer wanted are removed, and a fault may have left
a manifest that is no JSON. The next turn calls again. That this comes out right is in the order of
the stages, the copies first, then the removals, the manifest last: a manifest that is lost named
nothing any more that is still to be removed. `retries_converge` says it of any number of
calls that raise, whatever stops them.
-/

set_option autoImplicit false

namespace ClawEngine.Skills

open ClawEngine.Core ClawEngine.Core.Act ClawEngine.Posix ClawEngine.Context ClawEngine.Identity

variable {C : Type}

/-! ## What a call has done to the skills -/

section Skills

variable {tree : String → Posix.Tree C} {R : Location} {E : List String}
  {prev prev' : Finset String} {m m' m'' : Machine C}

/-- What is at an entry is the head of its tree. -/
theorem get?_of_treeAt {d d' : Disk C} {p : Location} (h : d'.treeAt p = d.treeAt p) :
    d'.get? p = d.get? p := by
  have hhead := congrFun h []
  rwa [Disk.treeAt, Disk.treeAt, List.append_nil] at hhead

/-- A call that is to write the skills `E` and finds `prev` in the manifest has done a part of its
work: the wanted skills may be laid in part, what it is to remove may be gone in part, and the rest
is as it was. -/
structure Underway (tree : String → Posix.Tree C) (R : Location) (E : List String)
    (prev : Finset String) (m m' : Machine C) : Prop where
  wanted : ∀ s ∈ E, PartlyAt (tree s) R s m m'
  shrinks : ∀ s, s ∉ E → s ≠ manifestFile → ∀ rel e,
    m'.disk.treeAt (R ++ [s]) rel = some e → m.disk.treeAt (R ++ [s]) rel = some e
  kept : ∀ s, s ∉ E → s ≠ manifestFile → (s ∈ prev → m.disk.get? (R ++ [s]) ≠ some .dir) →
    m'.disk.treeAt (R ++ [s]) = m.disk.treeAt (R ++ [s])

namespace Underway

theorem refl (tree : String → Posix.Tree C) (R : Location) (E : List String) (prev : Finset String)
    (m : Machine C) : Underway tree R E prev m m :=
  ⟨fun _ _ => .refl .., fun _ _ _ _ _ h => h, fun _ _ _ _ => rfl⟩

/-- A directory that is there was there. -/
theorem dir (h : Underway tree R E prev m m') {s : String} (hs : s ∉ E) (hne : s ≠ manifestFile)
    (hdir : m'.disk.get? (R ++ [s]) = some .dir) : m.disk.get? (R ++ [s]) = some .dir := by
  have hbefore := h.shrinks s hs hne [] .dir
  rw [Disk.treeAt, Disk.treeAt, List.append_nil] at hbefore
  exact hbefore hdir

/-- Part of the work, and then a part of the rest. -/
theorem trans (h : Underway tree R E prev m m') (h' : Underway tree R E prev' m' m'')
    (hprev : prev' ⊆ prev) : Underway tree R E prev m m'' where
  wanted s hs := (h.wanted s hs).trans (h'.wanted s hs)
  shrinks s hs hne rel e he := h.shrinks s hs hne rel e (h'.shrinks s hs hne rel e he)
  kept s hs hne hstays := by
    have hsame := h.kept s hs hne hstays
    rw [h'.kept s hs hne fun hin => ?_, hsame]
    rw [get?_of_treeAt hsame]
    exact hstays (hprev hin)

/-- The manifest is none of the work, unless it is a wanted skill. -/
theorem of_same (hfree : manifestFile ∉ E) (hsame : ∀ s, s ≠ manifestFile →
    m'.disk.treeAt (R ++ [s]) = m.disk.treeAt (R ++ [s])) : Underway tree R E prev m m' := by
  refine ⟨fun s hs => ?_, fun s _ hne rel e he => ?_, fun s _ hne _ => hsame s hne⟩
  · exact PartlyAt.of_same (hsame s fun heq => hfree (heq ▸ hs))
  · rwa [hsame s hne] at he

/-- A wanted skill that is laid in part. -/
theorem of_partly {s : String} (hs : s ∈ E) (hpartly : PartlyAt (tree s) R s m m')
    (hbeside : ∀ s', s' ≠ s → m'.disk.treeAt (R ++ [s']) = m.disk.treeAt (R ++ [s'])) :
    Underway tree R E prev m m' := by
  refine ⟨fun s' hs' => ?_, fun s' hs' _ rel e he => ?_, fun s' hs' _ _ => ?_⟩
  · by_cases heq : s' = s
    · exact heq ▸ hpartly
    · exact .of_same (hbeside s' heq)
  · rwa [hbeside s' fun heq => hs' (heq ▸ hs)] at he
  · exact hbeside s' fun heq => hs' (heq ▸ hs)

/-- Something more is gone of a skill that is to be removed. -/
theorem prune (h : Underway tree R E prev m m') {s : String} (hs : s ∉ E) (hprev : s ∈ prev)
    (hdir : m.disk.get? (R ++ [s]) = some .dir) {q : Location} (hq : R ++ [s] <+: q) :
    Underway tree R E prev m { m' with disk := m'.disk.prune q } := by
  have hbeside : ∀ s', s' ≠ s →
      (m'.disk.prune q).treeAt (R ++ [s']) = m'.disk.treeAt (R ++ [s']) := fun s' hne => by
    funext rel
    refine Disk.get?_prune_of_apart _ fun hpre => hne ?_
    exact entry_prefix_inj (List.prefix_append _ rel) (hq.trans hpre)
  refine ⟨fun s' hs' => (h.wanted s' hs').trans (.of_same ?_), fun s' hs' hne rel e he => ?_,
    fun s' hs' hne hstays => ?_⟩
  · exact hbeside s' fun heq => hs (heq ▸ hs')
  · exact h.shrinks s' hs' hne rel e (Disk.get?_of_prune he)
  · have hother : s' ≠ s := fun heq => hstays (heq ▸ hprev) (heq ▸ hdir)
    exact (hbeside s' hother).trans (h.kept s' hs' hne hstays)

end Underway

end Skills

/-! ## Up to the manifest -/

section Call

variable {P : SkillProvisioner C} {ws : ResolvedWorkspace} {user : User} {R : Location}
  {E : List String} {prev : Finset String} {tree : String → Posix.Tree C} {m m' : Machine C}
  {s : String}

/-- A call that has not come to the manifest yet: it is underway, and has changed nothing outside
the skills directory. -/
structure BeforeManifest (tree : String → Posix.Tree C) (R : Location) (E : List String)
    (prev : Finset String) (m m' : Machine C) : Prop extends Underway tree R E prev m m' where
  spares : Spares (Outside R) m m'
  manifest : m'.disk.get? (R ++ [manifestFile]) = m.disk.get? (R ++ [manifestFile])

namespace BeforeManifest

theorem sameOutside (h : BeforeManifest tree R E prev m m') : SameOutside R m m' :=
  ⟨h.spares.workdir, h.spares.same⟩

theorem ticks (tree : String → Posix.Tree C) (R : Location) (E : List String)
    (prev : Finset String) (m : Machine C) : Ticks (BeforeManifest tree R E prev m) :=
  fun m' n h => ⟨⟨h.wanted, h.shrinks, h.kept⟩, Spares.ticks _ _ m' n h.spares, h.manifest⟩

theorem refl (tree : String → Posix.Tree C) (R : Location) (E : List String)
    (prev : Finset String) (m : Machine C) : BeforeManifest tree R E prev m m :=
  ⟨.refl .., .refl _ m, rfl⟩

theorem slot {dest : PosixPath} (h : BeforeManifest tree R E prev m m')
    (hstands : StandsAt m dest R) (hlinks : NoLinks m R) (hs : isEntryName s = true) :
    Slot m' dest R s :=
  ⟨(hstands.mono h.sameOutside).leads, hs,
    fun p hp => hlinks.mono h.spares.links p ((List.prefix_append R [s]).trans hp)⟩

/-- Copying a wanted skill from the source. -/
theorem copytree [Inhabited C] {dest src : PosixPath} (h : BeforeManifest tree R E prev m m')
    (hstands : StandsAt m dest R) (hlinks : NoLinks m R) (hs : isEntryName s = true)
    (hE : s ∈ E) (hne : s ≠ manifestFile) (hapart : Apart {R} m' src)
    (htree : treeOf m' src = tree s) (fuel : Nat) :
    BeforeManifest tree R E prev m (Posix.copytree fuel src (dest.child s) m').2 := by
  have hslot := h.slot hstands hlinks hs
  have hexpands := hslot.writes.copytree fuel src (child_through dest s) m' (.refl _ m')
  have hpartly := (copytree_laysPartly fuel).partly hslot (hapart.mono (covers_below R _))
  rw [htree] at hpartly
  refine ⟨h.toUnderway.trans (.of_partly hE hpartly fun s' hs' => treeAt_beside hexpands hs')
    (Finset.Subset.refl prev), ?_, ?_⟩
  · exact h.spares.trans (hexpands.toSpares.mono (outside_subset_beside R s))
  · rw [← h.manifest]
    exact get?_of_treeAt (treeAt_beside hexpands hne.symm)

/-- Removing a skill that is no longer wanted. -/
theorem revokeSkill {depth : Nat} {dest : PosixPath} (h : BeforeManifest tree R E prev m m')
    (hstands : StandsAt m dest R) (hlinks : NoLinks m R) (hs : isEntryName s = true)
    (hE : s ∉ E) (hprev : s ∈ prev) (hnodir : m.disk.get? (R ++ [manifestFile]) ≠ some .dir)
    (revoked : List String) :
    BeforeManifest tree R E prev m (Skills.revokeSkill depth dest R revoked s m').2 := by
  have hslot := h.slot hstands hlinks hs
  by_cases hdir : m'.disk.get? (R ++ [s]) = some .dir
  · have hne : s ≠ manifestFile := by
      rintro rfl
      rw [h.manifest] at hdir
      exact hnodir hdir
    refine revokeSkill_keeps_slot hslot ⟨ticks tree R E prev m, fun m₁ q h₁ hq => ?_⟩ h revoked
    refine ⟨h₁.toUnderway.prune hE hprev (h.dir hE hne hdir) hq, ?_, ?_⟩
    · exact h₁.spares.prune fun p hp hqp => hp (below_entry (hq.trans hqp))
    · refine (Disk.get?_prune_of_apart _ fun hpre => hne ?_).trans h₁.manifest
      exact entry_prefix_inj (hq.trans hpre) List.prefix_rfl
  · rwa [revokeSkill_skips hslot.leads hslot.name (hslot.noLinks _ List.prefix_rfl) hdir]

end BeforeManifest

variable [Inhabited C]

/-- What the copy loop has provisioned, when it returns. -/
theorem provisionSkills_written {copied : ProvisionResult} {m₁ m₂ : Machine C}
    (hroot : Leads m (P.destRoot ws) R) (hlinks : NoLinks m R) (hsource : P.source.ApartFrom R m)
    (hsame : SameDisk m m₁)
    (hok : provisionSkills P ws user (P.destRoot ws) ws.allowedSkills {} m₁ = (.ok copied, m₂)) :
    copied.provisioned = P.written ws user m := by
  have hexpands : Expands ∅ m m₁ := .of_disk hsame.1 hsame.2
  have hplain : ∀ s ∈ ws.allowedSkills, P.effective ws user m s = true → isPlainName s = true := by
    intro s _ heffective
    simp only [SkillProvisioner.effective, Bool.and_eq_true] at heffective
    exact heffective.1.1
  have hslots : ∀ s, isPlainName s = true → Slot m₁ (P.destRoot ws) R s := fun s hs =>
    ⟨hexpands.leads hroot, isEntryName_of_isPlainName hs,
      fun p hp => hlinks.mono hexpands.links p ((List.prefix_append R [s]).trans hp)⟩
  exact (provisionSkills_copied (S := {s | isPlainName s = true})
    (fun m' hm' => hsource.hasSkill m' hm'.sameOff) _ hplain hslots (hsame.sameOutside R)
    hok).provisioned

/-- **Up to the manifest**, wherever a call stops: it has done a part of its work. -/
theorem upToManifest_underway (hstands : StandsAt m (P.destRoot ws) R) (hlinks : NoLinks m R)
    (hsource : P.source.ApartFrom R m) (hfree : manifestFile ∉ P.written ws user m)
    (hnodir : m.disk.get? (R ++ [manifestFile]) ≠ some .dir)
    (hstored : storedNames P.json R m = .ok prev) :
    BeforeManifest (P.source.tree m) R (P.written ws user m) prev m
      (P.upToManifest ws user m).2 := by
  have hread : Keeps (SameDisk m) (readManifest P.json (P.destRoot ws)) := readManifest_same
  have hstart := BeforeManifest.refl (P.source.tree m) R (P.written ws user m) prev m
  have hticks := BeforeManifest.ticks (P.source.tree m) R (P.written ws user m) prev m
  refine bind_ends_at (readManifest_keeps hticks _ _ m hstart) fun names m₁ hnames hm₁ => ?_
  obtain rfl : names = prev := by
    have hnames := readManifest_stored hstands.leads hlinks hnodir hnames
    cases hnames.symm.trans hstored
    rfl
  refine bind_ends_at (provisionSkills_keeps_from _ ?_ m₁ hm₁) fun copied m₂ hcopied hm₂ => ?_
  · intro s hs m₂ h heffective src hsrc
    have hoff := h.sameOutside.sameOff
    rw [SkillProvisioner.effective, hsource.hasSkill m₂ hoff] at heffective
    have hplain : isPlainName s = true := by
      simp only [Bool.and_eq_true] at heffective
      exact heffective.1.1
    have hwritten : s ∈ P.written ws user m := List.mem_filter.mpr ⟨hs, heffective⟩
    obtain ⟨p, name, rfl, hname, hapart⟩ := (hsource.congr hoff).trees s src hsrc
    refine h.copytree hstands hlinks (isEntryName_of_isPlainName hplain) hwritten
      (fun heq => hfree (heq ▸ hwritten)) hapart ?_ _
    rw [← hsource.tree_eq hoff, SkillSource.tree_of_ok hsrc]
  have hwritten := provisionSkills_written hstands.leads hlinks hsource
    (hread.of_eq ⟨rfl, rfl⟩ hnames) hcopied
  refine bind_ends_at ?_ fun real m₃ hreal hm₃ => ?_
  · rwa [mapError_left]
  obtain ⟨hresolved, rfl⟩ := readE_eq_ok.mp (mapError_eq_ok.mp hreal)
  cases (realpath_of_lookup (hstands.mono hm₃.sameOutside).leads.found).symm.trans hresolved
  refine bind_ends_at (revokeSkills_keeps_each _ _ ?_ _ hm₃) fun _ _ _ h => h
  intro s hs m₃ revoked h
  obtain ⟨hprev, hout⟩ := mem_outdated.mp hs
  exact h.revokeSkill hstands hlinks
    (isEntryName_of_isPlainName (readManifest_plain hnames s hprev)) (hwritten ▸ hout) hprev hnodir
    revoked

/-- **When a call comes to the manifest**, no skill is there any more that the manifest names and
the call was not to write. -/
theorem upToManifest_arrives (hstands : StandsAt m (P.destRoot ws) R) (hlinks : NoLinks m R)
    (hsource : P.source.ApartFrom R m) (hfree : manifestFile ∉ P.written ws user m)
    (hnodir : m.disk.get? (R ++ [manifestFile]) ≠ some .dir)
    (hstored : storedNames P.json R m = .ok prev) {answer : ProvisionResult × List String}
    (hok : P.upToManifest ws user m = (.ok answer, m')) :
    ∀ s ∈ prev, s ∉ P.written ws user m → m'.disk.get? (R ++ [s]) ≠ some .dir := by
  have hend : BeforeManifest (P.source.tree m) R (P.written ws user m) prev m
      (P.upToManifest ws user m).2 :=
    upToManifest_underway hstands hlinks hsource hfree hnodir hstored
  rw [hok] at hend
  obtain ⟨names, m₁, hnames, hok⟩ := bind_eq_ok.mp hok
  obtain ⟨copied, m₂, hcopied, hok⟩ := bind_eq_ok.mp hok
  obtain ⟨real, m₃, hreal, hok⟩ := bind_eq_ok.mp hok
  obtain ⟨hresolved, rfl⟩ := readE_eq_ok.mp (mapError_eq_ok.mp hreal)
  obtain ⟨revoked, m₄, hrevoke, hok⟩ := bind_eq_ok.mp hok
  cases hok
  have hsame : SameDisk m m₁ := readManifest_same.of_eq ⟨rfl, rfl⟩ hnames
  have hexpands : Expands ∅ m m₁ := .of_disk hsame.1 hsame.2
  obtain ⟨written, -, hlaid⟩ := provisionSkills_lay (hsource.congr (.of_sameDisk hsame _))
    (hexpands.leads hstands.leads) (hlinks.mono hexpands.links) _ hcopied
  have hroot := hlaid.expands.leads (hexpands.leads hstands.leads)
  cases (realpath_of_lookup hroot.found).symm.trans hresolved
  obtain ⟨-, hremoved⟩ := revokeSkills_outcome _ (outdated_nodup _ _)
    (fun s hs => isEntryName_of_isPlainName (readManifest_plain hnames s (mem_outdated.mp hs).1))
    hroot.dir ((hlinks.mono hexpands.links).mono hlaid.expands.links) hrevoke
    (hstands.mono hend.sameOutside).leads.found
  intro s hs hout hdir
  have hprev : s ∈ names := by
    cases (readManifest_stored hstands.leads hlinks hnodir hnames).symm.trans hstored
    exact hs
  have hcopied := provisionSkills_written hstands.leads hlinks hsource hsame hcopied
  have hrevoked := mem_dirsAmong.mpr
    ⟨mem_outdated.mpr ⟨hprev, hcopied ▸ hout⟩, hremoved.shrinks.entries _ _ hdir⟩
  rw [hremoved.gone s hrevoked _ List.prefix_rfl] at hdir
  cases hdir

end Call

/-! ## A call that raised -/

section Raised

variable {json : JsonFile C} {tree : String → Posix.Tree C} {R : Location} {E : List String}
  {prev prev' : Finset String} {m m' m'' : Machine C}

/-- What a call that raised has left in the skills directory: it was underway, and the manifest is
as it was, or names nothing and nothing is left of what it named and is not wanted. -/
structure LeftBehind (json : JsonFile C) (tree : String → Posix.Tree C) (R : Location)
    (E : List String) (prev : Finset String) (m m' : Machine C) : Prop
    extends Underway tree R E prev m m' where
  manifest : m'.disk.get? (R ++ [manifestFile]) = m.disk.get? (R ++ [manifestFile]) ∨
    (∃ content, m'.disk.get? (R ++ [manifestFile]) = some (.file content) ∧
      json.managed content = .ok ∅) ∧
    ∀ s ∈ prev, s ∉ E → s ≠ manifestFile → m'.disk.get? (R ++ [s]) ≠ some .dir

namespace LeftBehind

/-- What the next call reads of the manifest. -/
theorem stored (h : LeftBehind json tree R E prev m m')
    (hstored : storedNames json R m = .ok prev) :
    storedNames json R m' = .ok prev ∨ storedNames json R m' = .ok ∅ ∧
      ∀ s ∈ prev, s ∉ E → s ≠ manifestFile → m'.disk.get? (R ++ [s]) ≠ some .dir := by
  rcases h.manifest with hsame | ⟨⟨content, hfile, hnames⟩, hgone⟩
  · left
    rw [← hstored, storedNames, storedNames, hsame]
  · refine .inr ⟨?_, hgone⟩
    rw [storedNames, hfile]
    exact hnames

/-- No more is read than before. -/
theorem read_subset (h : LeftBehind json tree R E prev m m')
    (hstored : storedNames json R m = .ok prev)
    (hstored' : storedNames json R m' = .ok prev') : prev' ⊆ prev := by
  rcases h.stored hstored with hsame | ⟨hnone, -⟩
  · cases hsame.symm.trans hstored'
    exact Finset.Subset.refl _
  · cases hnone.symm.trans hstored'
    exact Finset.empty_subset _

/-- What is still to be removed is still read. -/
theorem read_again (h : LeftBehind json tree R E prev m m')
    (hstored : storedNames json R m = .ok prev)
    (hstored' : storedNames json R m' = .ok prev') {s : String} (hs : s ∈ prev) (hE : s ∉ E)
    (hne : s ≠ manifestFile) (hdir : m'.disk.get? (R ++ [s]) = some .dir) : s ∈ prev' := by
  rcases h.stored hstored with hsame | ⟨-, hgone⟩
  · cases hsame.symm.trans hstored'
    exact hs
  · exact absurd hdir (hgone s hs hE hne)

/-- The manifest is still no directory. -/
theorem noDir (h : LeftBehind json tree R E prev m m')
    (hnodir : m.disk.get? (R ++ [manifestFile]) ≠ some .dir) :
    m'.disk.get? (R ++ [manifestFile]) ≠ some .dir := by
  rcases h.manifest with hsame | ⟨⟨content, hfile, -⟩, -⟩
  · rwa [hsame]
  · rw [hfile]
    exact nofun

/-- **One call that raised after another.** -/
theorem trans (h : LeftBehind json tree R E prev m m') (hstored : storedNames json R m = .ok prev)
    (h' : LeftBehind json tree R E prev' m' m'') (hstored' : storedNames json R m' = .ok prev') :
    LeftBehind json tree R E prev m m'' := by
  -- what was gone after the first stays gone
  have hstays : (∀ s ∈ prev, s ∉ E → s ≠ manifestFile → m'.disk.get? (R ++ [s]) ≠ some .dir) →
      ∀ s ∈ prev, s ∉ E → s ≠ manifestFile → m''.disk.get? (R ++ [s]) ≠ some .dir :=
    fun hgone s hs hE hne hdir => hgone s hs hE hne (h'.dir hE hne hdir)
  rcases h.stored hstored with hread | ⟨hread, hgone⟩
  · cases hread.symm.trans hstored'
    refine ⟨h.toUnderway.trans h'.toUnderway (Finset.Subset.refl _), ?_⟩
    rcases h'.manifest with hsame | hlost
    · exact h.manifest.imp (fun hfirst => hsame.trans hfirst) fun hlost =>
        ⟨hsame ▸ hlost.1, hstays hlost.2⟩
    · exact .inr hlost
  · cases hread.symm.trans hstored'
    refine ⟨h.toUnderway.trans h'.toUnderway (Finset.empty_subset _), ?_⟩
    rcases h'.manifest with hsame | hlost
    · exact h.manifest.imp (fun hfirst => hsame.trans hfirst) fun hlost =>
        ⟨hsame ▸ hlost.1, hstays hlost.2⟩
    · exact .inr ⟨hlost.1, hstays hgone⟩

/-- What is to be removed was to be removed. -/
theorem dirsAmong_subset (h : LeftBehind json tree R E prev m m')
    (hnodir : m.disk.get? (R ++ [manifestFile]) ≠ some .dir)
    (hstored : storedNames json R m = .ok prev) (hstored' : storedNames json R m' = .ok prev') :
    dirsAmong m' R (outdated prev' E) ⊆ dirsAmong m R (outdated prev E) := fun s hs => by
  obtain ⟨hout, hdir⟩ := mem_dirsAmong.mp hs
  obtain ⟨hin, hE⟩ := mem_outdated.mp hout
  refine mem_dirsAmong.mpr ⟨mem_outdated.mpr ⟨h.read_subset hstored hstored' hin, hE⟩, ?_⟩
  exact h.dir hE (fun heq => h.noDir hnodir (heq ▸ hdir)) hdir

/-- The next call reads something. -/
theorem reads (h : LeftBehind json tree R E prev m m') (hstored : storedNames json R m = .ok prev) :
    ∃ prev', storedNames json R m' = .ok prev' := by
  rcases h.stored hstored with hsame | ⟨hnone, -⟩
  · exact ⟨prev, hsame⟩
  · exact ⟨∅, hnone⟩

/-- Nothing has changed below `R`. -/
theorem of_same (h : ∀ p, R <+: p → p ≠ R → m'.disk.get? p = m.disk.get? p) :
    LeftBehind json tree R E prev m m' := by
  have htrees : ∀ s, m'.disk.treeAt (R ++ [s]) = m.disk.treeAt (R ++ [s]) := fun s => by
    funext rel
    obtain ⟨hpre, hne⟩ := below_entry (List.prefix_append (R ++ [s]) rel)
    exact h _ hpre hne
  refine ⟨⟨fun s _ => .of_same (htrees s), fun s _ _ rel e he => ?_, fun s _ _ _ => htrees s⟩,
    .inl (get?_of_treeAt (htrees manifestFile))⟩
  rwa [htrees s] at he

end LeftBehind

section Writing

variable [Inhabited C] {dest : PosixPath} {names : Finset String} {e : ProvisionError}

/-- **Writing the manifest**, when it raises: nothing has changed, or what the fault left stands
there. -/
theorem writeManifest_raised (hslot : Slot m dest R manifestFile)
    (hraised : writeManifest json dest names m = (.error e, m')) : SameDisk m m' ∨
    ∃ fault, m.faults (m.tick + 1) = some fault ∧ ∀ p,
      m'.disk.get? p = if p = R ++ [manifestFile] then some (.file fault.left)
        else m.disk.get? p := by
  obtain ⟨_, hwrite⟩ := mapError_eq_error hraised
  rcases bind_eq_error.mp hwrite with hopen | ⟨q, m₁, hopen, hwrite⟩
  · exact .inl (openWrite_raised hopen)
  right
  obtain ⟨rfl, -, -, hget⟩ := openWrite_slot_get hslot hopen
  have hcan := Disk.canPut_of_file ((hget _).trans (if_pos rfl))
  obtain ⟨hfaults, htick⟩ : m₁.faults = m.faults ∧ m₁.tick = m.tick + 1 := by
    obtain ⟨_, m₂, hcheck, hopen⟩ := bind_eq_ok.mp hopen
    have hnext : m₂ = m.next := by
      rcases checkFault_cases m with ⟨_, _, -, hfault⟩ | hnone
      · cases hfault.symm.trans hcheck
      · cases hnone.symm.trans hcheck
        rfl
    subst hnext
    split at hopen
    · split at hopen
      · cases hopen
      · cases hopen
        exact ⟨rfl, rfl⟩
    · cases hopen
      exact ⟨rfl, rfl⟩
    · cases hopen
  unfold writeAt at hwrite
  split at hwrite
  next fault hfault =>
    cases hwrite
    rw [hfaults, htick] at hfault
    refine ⟨fault, hfault, fun p => ?_⟩
    rw [Disk.get?_put hcan, hget]
    split <;> rfl
  next => cases hwrite

variable {P : SkillProvisioner C} {ws : ResolvedWorkspace} {user : User}

/-- **A call that raised**, where a fault in the manifest leaves no names to be read. -/
theorem provisionOpened_leftBehind (hstands : StandsAt m (P.destRoot ws) R) (hlinks : NoLinks m R)
    (hsource : P.source.ApartFrom R m) (hfree : manifestFile ∉ P.written ws user m)
    (hnodir : m.disk.get? (R ++ [manifestFile]) ≠ some .dir)
    (hstored : storedNames P.json R m = .ok prev)
    (hfaults : ∀ fault, (P.upToManifest ws user m).2.faults
        ((P.upToManifest ws user m).2.tick + 1) = some fault →
      P.json.managed fault.left = .ok ∅)
    (hraised : P.provisionOpened ws user m = (.error e, m')) :
    LeftBehind P.json (P.source.tree m) R (P.written ws user m) prev m m' := by
  have hstages : BeforeManifest (P.source.tree m) R (P.written ws user m) prev m
      (P.upToManifest ws user m).2 :=
    upToManifest_underway hstands hlinks hsource hfree hnodir hstored
  rw [provisionOpened_eq] at hraised
  rcases bind_eq_error.mp hraised with hstopped | ⟨answer, m₁, harrived, hraised⟩
  · rw [hstopped] at hstages
    exact ⟨hstages.toUnderway, .inl hstages.manifest⟩
  have hgone := upToManifest_arrives hstands hlinks hsource hfree hnodir hstored harrived
  rw [harrived] at hstages hfaults
  rcases bind_eq_error.mp hraised with hwrite | ⟨_, m₂, -, hraised⟩
  · rcases writeManifest_raised (hstages.slot hstands hlinks isEntryName_manifestFile) hwrite with
      hsame | ⟨fault, hfault, hget⟩
    · have hnext : Underway (P.source.tree m) R (P.written ws user m) prev m₁ m' :=
        .of_same hfree fun s _ => by rw [hsame.1]
      refine ⟨hstages.toUnderway.trans hnext (Finset.Subset.refl _), .inl ?_⟩
      rw [hsame.1]
      exact hstages.manifest
    · -- what the fault left is seen at the manifest only
      have hbeside : ∀ s, s ≠ manifestFile →
          m'.disk.treeAt (R ++ [s]) = m₁.disk.treeAt (R ++ [s]) := fun s hne => by
        funext rel
        refine (hget _).trans (if_neg fun heq => hne ?_)
        have hpre : R ++ [manifestFile] <+: R ++ [s] ++ rel := heq ▸ List.prefix_rfl
        exact entry_prefix_inj (List.prefix_append _ rel) hpre
      have hnext : Underway (P.source.tree m) R (P.written ws user m) prev m₁ m' :=
        .of_same hfree hbeside
      refine ⟨hstages.toUnderway.trans hnext (Finset.Subset.refl _), .inr ⟨?_, ?_⟩⟩
      · exact ⟨fault.left, (hget _).trans (if_pos rfl), hfaults fault hfault⟩
      · intro s hs hE hne
        rw [get?_of_treeAt (hbeside s hne)]
        exact hgone s hs hE
  · cases hraised

end Writing

/-! ## A call that returned after it -/

/-- Below what is no directory there is nothing. -/
theorem treeAt_noDir {d : Disk C} {p : Location} (h : d.get? p ≠ some .dir) (rel : List String) :
    d.treeAt p rel = if rel = [] then d.get? p else none := by
  split
  next hnil => rw [hnil, Disk.treeAt, List.append_nil]
  next hrel =>
    by_contra hsome
    obtain ⟨e, he⟩ := Option.ne_none_iff_exists'.mp hsome
    exact h (Disk.ancestor_dir hrel he)

/-- What two disks have in common below `R` if they have the trees of its entries in common. -/
theorem same_below {d d' : Disk C} (hroot : d'.get? R = d.get? R)
    (htrees : ∀ s, d'.treeAt (R ++ [s]) = d.treeAt (R ++ [s])) (p : Location) (hp : R <+: p) :
    d'.get? p = d.get? p := by
  obtain ⟨rel, rfl⟩ := hp
  cases rel with
  | nil => rw [List.append_nil, hroot]
  | cons s rel =>
    rw [List.append_cons]
    exact congrFun (htrees s) rel

/-- **What is left behind makes no difference to a call that returns**: it leaves of every skill
what it would have left at first. -/
theorem LeftBehind.leaves_same {result result' : ProvisionResult} {m₁ m₁' : Machine C}
    (h : LeftBehind json tree R result.provisioned prev m m')
    (hend : Leaves json tree R result m m₁) (hend' : Leaves json tree R result' m' m₁')
    (hprov : result'.provisioned = result.provisioned)
    (hstored : storedNames json R m = .ok prev) (hstored' : storedNames json R m' = .ok prev')
    (hrevoked : result.revoked = dirsAmong m R (outdated prev result.provisioned))
    (hrevoked' : result'.revoked = dirsAmong m' R (outdated prev' result.provisioned))
    (htree : ∀ s rel target, tree s rel ≠ some (.link target)) (s : String) :
    m₁'.disk.treeAt (R ++ [s]) = m₁.disk.treeAt (R ++ [s]) := by
  by_cases hne : s = manifestFile
  · subst hne
    have hfile := hend.manifest
    have hfile' := hend'.manifest
    rw [hprov] at hfile'
    have hnodir : m₁.disk.get? (R ++ [manifestFile]) ≠ some .dir := by
      rw [hfile]
      exact nofun
    have hnodir' : m₁'.disk.get? (R ++ [manifestFile]) ≠ some .dir := by
      rw [hfile']
      exact nofun
    funext rel
    rw [treeAt_noDir hnodir, treeAt_noDir hnodir', hfile, hfile']
  by_cases hE : s ∈ result.provisioned
  · have hlaid := PartlyLaid.laid (h.wanted s hE) (hend'.laid s (hprov ▸ hE))
    exact hlaid.unique (hend.laid s hE) (htree s)
  by_cases hstale : s ∈ prev ∧ m.disk.get? (R ++ [s]) = some .dir
  · -- it is to be removed, and may be gone already
    have hgone : s ∈ result.revoked := by
      rw [hrevoked]
      exact mem_dirsAmong.mpr ⟨mem_outdated.mpr ⟨hstale.1, hE⟩, hstale.2⟩
    funext rel
    rw [hend.gone s hne hgone]
    by_cases hdir : m'.disk.get? (R ++ [s]) = some .dir
    · refine hend'.gone s hne ?_ rel
      rw [hrevoked']
      have hread := h.read_again hstored hstored' hstale.1 hE hne hdir
      exact mem_dirsAmong.mpr ⟨mem_outdated.mpr ⟨hread, hE⟩, hdir⟩
    · have hnone : m'.disk.get? (R ++ [s]) = none := by
        by_contra hsome
        obtain ⟨e, he⟩ := Option.ne_none_iff_exists'.mp hsome
        have hbefore := h.shrinks s hE hne [] e
        rw [Disk.treeAt, Disk.treeAt, List.append_nil, hstale.2] at hbefore
        cases hbefore he
        exact hdir he
      rw [hend'.other s hne (hprov ▸ hE), treeAt_noDir hdir, hnone, ite_self]
      rw [hrevoked']
      exact fun hin => hdir (mem_dirsAmong.mp hin).2
  · rw [hend.other s hne hE, hend'.other s hne (hprov ▸ hE),
      h.kept s hE hne fun hin hdir => hstale ⟨hin, hdir⟩]
    · rw [hrevoked']
      intro hin
      obtain ⟨hout, hdir⟩ := mem_dirsAmong.mp hin
      have hread := h.read_subset hstored hstored' (mem_outdated.mp hout).1
      exact hstale ⟨hread, h.dir hE hne hdir⟩
    · rw [hrevoked]
      intro hin
      obtain ⟨hout, hdir⟩ := mem_dirsAmong.mp hin
      exact hstale ⟨(mem_outdated.mp hout).1, hdir⟩

end Raised

/-! ## Calls made again -/

section Calls

variable {R : Location} {c once prev : ProvisionCall C}

/-- A call that asks for what `once` asks for, of a source that answers the same. -/
structure ProvisionCall.Repeats (c once : ProvisionCall C) : Prop where
  provisioner : c.provisioner = once.provisioner
  workspace : c.workspace = once.workspace
  user : c.user = once.user
  hasSkill : ∀ s, c.provisioner.source.hasSkill c.opened s =
    once.provisioner.source.hasSkill once.opened s
  hasDir : ∀ s, c.provisioner.source.hasDir c.opened s =
    once.provisioner.source.hasDir once.opened s
  tree : ∀ s, c.provisioner.source.tree c.opened s = once.provisioner.source.tree once.opened s

theorem ProvisionCall.Repeats.written (h : c.Repeats once) :
    c.provisioner.written c.workspace c.user c.opened =
      once.provisioner.written once.workspace once.user once.opened := by
  have heffective : c.provisioner.effective c.workspace c.user c.opened =
      once.provisioner.effective once.workspace once.user once.opened := by
    funext s
    rw [SkillProvisioner.effective, SkillProvisioner.effective, h.hasSkill, h.provisioner,
      h.workspace, h.user]
  rw [SkillProvisioner.written, SkillProvisioner.written, heffective, h.workspace]

/-- It notes every skill under the same heading. -/
theorem ProvisionCall.Repeats.headed (h : c.Repeats once) :
    Skills.headed c.provisioner c.workspace c.user c.opened =
      Skills.headed once.provisioner once.workspace once.user once.opened := by
  funext result skill
  rw [Skills.headed, Skills.headed, h.hasSkill, h.hasDir, h.provisioner, h.workspace, h.user]

variable [Inhabited C]

/-- A call that may raise: its path, once it is made, leads to `R` and not through the entries
there, the source is elsewhere, and a fault that the writing of the manifest meets leaves what no
names are read of. -/
structure ProvisionCall.Retriable (c : ProvisionCall C) (R : Location) : Prop where
  stands : Returns (makedirs c.provisioner.depths.makedirs c.dest) c.machine →
    StandsAt c.opened c.dest R
  source : c.provisioner.source.ApartFrom R c.opened
  faults : ∀ fault, (c.provisioner.upToManifest c.workspace c.user c.opened).2.faults
      ((c.provisioner.upToManifest c.workspace c.user c.opened).2.tick + 1) = some fault →
    c.provisioner.json.managed fault.left = .ok ∅

/-- A call that meets no fault, and has what it works on. -/
structure ProvisionCall.Ready (c : ProvisionCall C) (R : Location) : Prop where
  made : Returns (makedirs c.provisioner.depths.makedirs c.dest) c.machine
  stands : StandsAt c.opened c.dest R
  copies : CopyReady c.provisioner c.workspace R c.opened

/-- The calls of a run that all repeat `once` on what `once` finds in `R`: each but the last has
raised, and is made again. Outside `R` anything may happen between two. -/
inductive Retries (R : Location) (once : ProvisionCall C) : ProvisionCall C → Prop
  | first {c : ProvisionCall C} (hrepeats : c.Repeats once)
    (hsame : ∀ p, R <+: p → p ≠ R → c.opened.disk.get? p = once.opened.disk.get? p) :
    Retries R once c
  | again {c prev : ProvisionCall C} (hrun : Retries R once prev) (hprev : prev.Retriable R)
    (hraised : prev.outcome.1.toOption = none) (hrepeats : c.Repeats once)
    (hothers : ∀ p, R <+: p → p ≠ R → c.opened.disk.get? p = prev.outcome.2.disk.get? p) :
    Retries R once c

/-- Once `dest_root` is made, the rest of the call begins. -/
theorem ProvisionCall.outcome_made
    (h : Returns (makedirs c.provisioner.depths.makedirs c.dest) c.machine) :
    c.outcome = c.provisioner.provisionOpened c.workspace c.user c.opened := by
  obtain ⟨u, m, hmade⟩ := h
  have hopened : c.opened = m := by rw [ProvisionCall.opened, hmade]
  rw [ProvisionCall.outcome, provision_eq, hopened]
  exact bind_of_ok (mapError_eq_ok.mpr hmade)

/-- Where it is not made, the call goes no further. -/
theorem ProvisionCall.outcome_unmade
    (h : ¬ Returns (makedirs c.provisioner.depths.makedirs c.dest) c.machine) :
    c.outcome.2 = c.opened := by
  cases hmade : makedirs c.provisioner.depths.makedirs c.dest c.machine with
  | mk answer m =>
    cases answer with
    | ok u => exact absurd ⟨u, m, hmade⟩ h
    | error e =>
      have hopened : c.opened = m := by rw [ProvisionCall.opened, hmade]
      have hraised : (makedirs c.provisioner.depths.makedirs c.dest).mapError ProvisionError.fs
          c.machine = (.error (.fs e), m) := by
        unfold Act.mapError
        rw [hmade]
      rw [ProvisionCall.outcome, provision_eq, hopened]
      exact congrArg Prod.snd (bind_of_error hraised)

/-- What a call that returned, and met no fault, found and left. -/
theorem ProvisionCall.Ready.returned {result : ProvisionResult} (h : once.Ready R)
    (hreturned : once.outcome.1 = .ok result) :
    SkillsDir once.provisioner once.workspace R once.opened ∧
      ∃ names, storedNames once.provisioner.json R once.opened = .ok names ∧
        Returns (once.provisioner.provisionOpened once.workspace once.user) once.opened ∧
        result = { once.workspace.allowedSkills.foldl
            (Skills.headed once.provisioner once.workspace once.user once.opened) {} with
          revoked := dirsAmong once.opened R
            (outdated names (once.provisioner.written once.workspace once.user once.opened)) } ∧
        Leaves once.provisioner.json (once.provisioner.source.tree once.opened) R result once.opened
          once.outcome.2 := by
  have hok : once.provisioner.provisionOpened once.workspace once.user once.opened =
      (.ok result, once.outcome.2) := by
    rw [← ProvisionCall.outcome_made h.made]
    exact Prod.ext hreturned rfl
  have hdir : SkillsDir once.provisioner once.workspace R once.opened := by
    refine ⟨h.copies, fun hdir => ?_⟩
    have hunread : (readManifest once.provisioner.json once.dest once.opened).1.toOption = none :=
      readManifest_dir h.stands.leads hdir
    obtain ⟨names, m₁, hread, -⟩ := bind_eq_ok.mp hok
    change readManifest once.provisioner.json once.dest once.opened = _ at hread
    rw [hread] at hunread
    cases hunread
  obtain ⟨names, hstored, hresult, -, hleaves⟩ := provisionOpened_outcome hdir hok
  exact ⟨hdir, names, hstored, ⟨result, _, hok⟩, hresult, hleaves⟩

theorem Retries.repeats (hrun : Retries R once c) : c.Repeats once := by
  cases hrun with
  | first hrepeats _ => exact hrepeats
  | again _ _ _ hrepeats _ => exact hrepeats

section Runs

variable {names : Finset String}

/-- What is left in `R` of the calls up to `m`, told by what `once` finds. -/
def Pending (R : Location) (once : ProvisionCall C) (names : Finset String) (m : Machine C) :
    Prop :=
  LeftBehind once.provisioner.json (once.provisioner.source.tree once.opened) R
      (once.provisioner.written once.workspace once.user once.opened) names once.opened m ∧
    ∀ p, R <+: p → p ≠ R → ∀ target, m.disk.get? p ≠ some (.link target)

/-- **One call that raises.** -/
theorem ProvisionCall.Retriable.step (h : c.Retriable R) (hrepeats : c.Repeats once)
    (hraised : c.outcome.1.toOption = none)
    (hfree : manifestFile ∉ once.provisioner.written once.workspace once.user once.opened)
    (hnodir : once.opened.disk.get? (R ++ [manifestFile]) ≠ some .dir)
    (hstored : storedNames once.provisioner.json R once.opened = .ok names)
    (hpending : Pending R once names c.opened) : Pending R once names c.outcome.2 := by
  obtain ⟨hleft, hbelow⟩ := hpending
  by_cases hmade : Returns (makedirs c.provisioner.depths.makedirs c.dest) c.machine
  · have hstands := h.stands hmade
    have hlinks : NoLinks c.opened R := fun p hp target => by
      by_cases heq : p = R
      · rw [heq, hstands.leads.dir]
        exact nofun
      · exact hbelow p hp heq target
    refine ⟨?_, fun p hp _ target => ProvisionCall.noLinks hlinks p hp target⟩
    obtain ⟨names', hread⟩ := hleft.reads hstored
    have hcall := ProvisionCall.outcome_made hmade
    obtain ⟨e, he⟩ : ∃ e, c.outcome.1 = .error e := by
      cases hanswer : c.outcome.1 with
      | ok result =>
        rw [hanswer] at hraised
        cases hraised
      | error e => exact ⟨e, rfl⟩
    have htree : c.provisioner.source.tree c.opened = once.provisioner.source.tree once.opened :=
      funext hrepeats.tree
    have hjson : c.provisioner.json = once.provisioner.json := by rw [hrepeats.provisioner]
    have hfree' : manifestFile ∉ c.provisioner.written c.workspace c.user c.opened := by
      rwa [hrepeats.written]
    have hread' : storedNames c.provisioner.json R c.opened = .ok names' := by rwa [hjson]
    have hnext := provisionOpened_leftBehind hstands hlinks h.source hfree' (hleft.noDir hnodir)
      hread' h.faults (hcall.symm.trans (Prod.ext he rfl))
    rw [hjson, htree, hrepeats.written] at hnext
    exact hleft.trans hstored hnext hread
  · rw [ProvisionCall.outcome_unmade hmade]
    exact ⟨hleft, hbelow⟩

/-- **What is left when the last call begins**, however many have raised. -/
theorem Retries.pending (hrun : Retries R once c) (hlinks : NoLinks once.opened R)
    (hfree : manifestFile ∉ once.provisioner.written once.workspace once.user once.opened)
    (hnodir : once.opened.disk.get? (R ++ [manifestFile]) ≠ some .dir)
    (hstored : storedNames once.provisioner.json R once.opened = .ok names) :
    Pending R once names c.opened := by
  induction hrun with
  | first hrepeats hsame =>
    refine ⟨.of_same hsame, fun p hp hne target => ?_⟩
    rw [hsame p hp hne]
    exact hlinks p hp target
  | again hrun hprev hraised hrepeats hothers ih =>
    obtain ⟨hleft, hbelow⟩ := hprev.step hrun.repeats hraised hfree hnodir hstored ih
    obtain ⟨names', hread⟩ := hleft.reads hstored
    refine ⟨hleft.trans hstored (.of_same hothers) hread, fun p hp hne target => ?_⟩
    rw [hothers p hp hne]
    exact hbelow p hp hne target

end Runs

/-- **The last call returns**, if it meets no fault, where `once` does. -/
theorem Retries.returns (hrun : Retries R once c) (honce : once.Ready R) (hready : c.Ready R)
    {result : ProvisionResult} (hreturned : once.outcome.1 = .ok result) :
    ∃ names names', storedNames once.provisioner.json R once.opened = .ok names ∧
      storedNames once.provisioner.json R c.opened = .ok names' ∧
      SkillsDir c.provisioner c.workspace R c.opened ∧
      LeftBehind once.provisioner.json (once.provisioner.source.tree once.opened) R
        (once.provisioner.written once.workspace once.user once.opened) names once.opened c.opened ∧
      Returns (c.provisioner.provisionOpened c.workspace c.user) c.opened := by
  obtain ⟨hdir, names, hstored, hreturns, -⟩ := honce.returned hreturned
  obtain ⟨hfree, hfits, hshallow, -⟩ := (provisionOpened_returns hdir hstored).mp hreturns
  have hrepeats := hrun.repeats
  obtain ⟨hleft, -⟩ := hrun.pending hdir.noLinks hfree hdir.manifest hstored
  obtain ⟨names', hread⟩ := hleft.reads hstored
  have hjson : c.provisioner.json = once.provisioner.json := by rw [hrepeats.provisioner]
  have hdepths : c.provisioner.depths = once.provisioner.depths := by rw [hrepeats.provisioner]
  have hdir' : SkillsDir c.provisioner c.workspace R c.opened :=
    ⟨hready.copies, hleft.noDir hdir.manifest⟩
  have hread' : storedNames c.provisioner.json R c.opened = .ok names' := by rwa [hjson]
  refine ⟨names, names', hstored, hread, hdir', hleft,
    (provisionOpened_returns hdir' hread').mpr ?_⟩
  rw [hrepeats.written, hdepths]
  refine ⟨hfree, fun s hs => ?_, fun s hs => ?_, ?_⟩
  · rw [hrepeats.tree]
    exact (hleft.wanted s hs).fits (hfits s hs)
  · obtain ⟨hout, hthere⟩ := mem_dirsAmong.mp hs
    have hE := (mem_outdated.mp hout).2
    have hne : s ≠ manifestFile := fun heq => hdir'.manifest (heq ▸ hthere)
    have hbefore := hshallow s (hleft.dirsAmong_subset hdir.manifest hstored hread hs)
    exact fun rel hrel => hbefore rel (hleft.shrinks s hE hne rel .dir hrel)
  · exact (hready.stands.mono (Removed.without R _ c.opened).sameOutside).leads

/-- **Calls that raise and are made again come to where one call comes that meets no fault.** The
last call, if it meets none, returns; it has sorted the skills under the same headings, has removed
none that the one call would not have removed, and leaves the skills directory with the same
entries. -/
theorem retries_converge (hrun : Retries R once c) (honce : once.Ready R) (hready : c.Ready R)
    {result : ProvisionResult} (hreturned : once.outcome.1 = .ok result) :
    ∃ result', c.outcome.1 = .ok result' ∧
      { result' with revoked := result.revoked } = result ∧ result'.revoked ⊆ result.revoked ∧
      ∀ p, R <+: p → c.outcome.2.disk.get? p = once.outcome.2.disk.get? p := by
  obtain ⟨names, names', hstored, hread, hdir', hleft, result', m', hok⟩ :=
    hrun.returns honce hready hreturned
  obtain ⟨hdir, names₁, hstored₁, -, hresult, hleaves⟩ := honce.returned hreturned
  cases hstored.symm.trans hstored₁
  have hrepeats := hrun.repeats
  have hjson : c.provisioner.json = once.provisioner.json := by rw [hrepeats.provisioner]
  have htree : c.provisioner.source.tree c.opened = once.provisioner.source.tree once.opened :=
    funext hrepeats.tree
  have hcall : c.outcome = (.ok result', m') := (ProvisionCall.outcome_made hready.made).trans hok
  obtain ⟨names₂, hstored₂, hresult', -, hleaves'⟩ := provisionOpened_outcome hdir' hok
  rw [hjson] at hstored₂
  cases hread.symm.trans hstored₂
  rw [hrepeats.headed, hrepeats.written, hrepeats.workspace] at hresult'
  rw [hjson, htree] at hleaves'
  have hprov : result.provisioned =
      once.provisioner.written once.workspace once.user once.opened := by
    rw [hresult]
    exact foldl_headed_provisioned _ _ _ _ _ _
  have hrevoked : result.revoked = dirsAmong once.opened R (outdated names result.provisioned) := by
    rw [hprov, hresult]
  have hrevoked' : result'.revoked = dirsAmong c.opened R (outdated names' result.provisioned) := by
    rw [hprov, hresult']
  have hprov' : result'.provisioned = result.provisioned := by rw [hresult, hresult']
  rw [← hprov] at hleft
  refine ⟨result', by rw [hcall], by rw [hresult, hresult'], ?_, fun p hp => ?_⟩
  · rw [hrevoked, hrevoked']
    exact hleft.dirsAmong_subset hdir.manifest hstored hread
  · rw [hcall]
    refine same_below (hleaves'.root.trans hleaves.root.symm) (fun s => ?_) p hp
    exact hleft.leaves_same hleaves hleaves' hprov' hstored hread hrevoked hrevoked'
      hdir.source.tree_noLink s

omit [Inhabited C] in
/-- A call repeats another if nothing is different outside `R`. -/
theorem ProvisionCall.Repeats.of_sameOff (honce : once.Ready R)
    (hprovisioner : c.provisioner = once.provisioner) (hworkspace : c.workspace = once.workspace)
    (huser : c.user = once.user) (hoff : SameOff {R} once.opened c.opened) : c.Repeats once := by
  refine ⟨hprovisioner, hworkspace, huser, fun s => ?_, fun s => ?_, fun s => ?_⟩
  · rw [hprovisioner]
    exact honce.copies.source.hasSkill _ hoff s
  · rw [hprovisioner]
    exact honce.copies.hasDir _ hoff s
  · rw [hprovisioner]
    exact honce.copies.source.tree_eq hoff s

end Calls

/-! ## A disk that is full for a while -/

/-- A call that copies a skill and removes another, which is no longer allowed. -/
def staleCall : ProvisionCall (List Char) :=
  { callOn [(skillsRoot ++ ["abtest"], .dir),
      (skillsRoot ++ [manifestFile], .file (textFile.dump (manifestOf ["abtest"])))] with
    workspace := lintWorkspace }

/-- The disk is full, and a brace is written. -/
def fullDisk : Fault (List Char) where
  text := "[Errno 28] No space left on device"
  left := ['\x7b']

/-- The same call, when the disk is full as it comes to write the manifest. -/
def fullCall : ProvisionCall (List Char) :=
  { staleCall with machine := { staleCall.machine with
      faults := fun n => if n = 12 then some fullDisk else none } }

/-- It is made again when there is room. -/
def againCall : ProvisionCall (List Char) :=
  { staleCall with machine := { fullCall.outcome.2 with faults := fun _ => none } }

/-- Such a call finds the skills directory. -/
theorem lintWorkspace_stands {c : ProvisionCall (List Char)} (hp : c.provisioner = openProvisioner)
    (hws : c.workspace = lintWorkspace) (hroot : c.machine.disk.isDirAt skillsRoot = true) :
    StandsAt c.machine c.dest skillsRoot ∧ c.opened = c.machine.next := by
  have hdest : c.dest = ⟨true, skillsRoot⟩ := by
    rw [ProvisionCall.dest, hp, hws]
    with_unfolding_all rfl
  have hstands : StandsAt c.machine c.dest skillsRoot := by
    rw [hdest]
    exact standsAt_located (Disk.isDirAt_iff.mp hroot)
  have hdepth : c.provisioner.depths.makedirs ≠ 0 := by
    rw [hp]
    decide
  exact ⟨hstands, (ProvisionCall.outcome_opened hstands.leads hdepth).1⟩

/-- And is ready, if no link is on the disk and it meets no fault. -/
theorem lintWorkspace_ready {c : ProvisionCall (List Char)} (hp : c.provisioner = openProvisioner)
    (hws : c.workspace = lintWorkspace) (hroot : c.machine.disk.isDirAt skillsRoot = true)
    (hcalm : Calm c.machine) (hlinks : ∀ p target, c.machine.disk.get? p ≠ some (.link target)) :
    c.Ready skillsRoot := by
  obtain ⟨hstands, hopened⟩ := lintWorkspace_stands hp hws hroot
  have hnext := hstands.mono (c.machine.next_sameDisk.sameOutside skillsRoot)
  have hmade : makedirs c.provisioner.depths.makedirs c.dest c.machine =
      (.ok (), c.machine.next) := by
    rw [hp]
    exact makedirs_leads_returns hstands.leads 899
  refine ⟨⟨(), c.machine.next, hmade⟩, hopened ▸ hnext, ?_⟩
  rw [hopened, hp, hws]
  rw [ProvisionCall.dest, hp, hws] at hnext
  exact ⟨fun n => hcalm n, hnext.leads, fun p _ => hlinks p, openSource_apart hlinks,
    fun m' hm s => localDirSkillSource_hasDir (m := c.machine.next) (openSource_paths hlinks) hm s,
    fun s hs => localDirSkillSource_reads (m := c.machine.next) hlinks hs⟩

theorem staleCall_noLinks (p : Location) (target : String) :
    staleCall.machine.disk.get? p ≠ some (.link target) :=
  callOn_noLinks (by decide +kernel) p target

theorem staleCall_ready : staleCall.Ready skillsRoot :=
  lintWorkspace_ready rfl rfl (by decide +kernel) (fun _ => rfl) staleCall_noLinks

/-- The call that meets the fault changes nothing outside the skills directory, and makes no
link. -/
theorem fullCall_inside : Spares (Outside skillsRoot) staleCall.machine fullCall.outcome.2 := by
  obtain ⟨hstands, hopened⟩ :=
    lintWorkspace_stands (c := fullCall) rfl rfl (by decide +kernel)
  have hnext := hstands.mono (fullCall.machine.next_sameDisk.sameOutside skillsRoot)
  have hpoints : PointsIn fullCall.opened.disk skillsRoot := by
    rw [hopened]
    exact fun cur name target _ hlink => absurd hlink (staleCall_noLinks (cur ++ [name]) target)
  have hinside : Spares (Outside skillsRoot) fullCall.opened fullCall.outcome.2 :=
    ProvisionCall.inside (hopened ▸ hnext.leads) (hpoints.keepsIn (hopened ▸ hnext.leads.dir))
  rw [hopened] at hinside
  exact ⟨hinside.workdir, hinside.same, hinside.links⟩

theorem againCall_noLinks (p : Location) (target : String) :
    againCall.machine.disk.get? p ≠ some (.link target) :=
  fun hlink => staleCall_noLinks p target (fullCall_inside.links p target hlink)

theorem againCall_ready : againCall.Ready skillsRoot :=
  lintWorkspace_ready rfl rfl (by decide +kernel) (fun _ => rfl) againCall_noLinks

/-- The second call repeats the one that meets no fault. -/
theorem againCall_repeats : againCall.Repeats staleCall := by
  refine .of_sameOff staleCall_ready rfl rfl rfl ?_
  obtain ⟨-, hopened⟩ := lintWorkspace_stands (c := staleCall) rfl rfl (by decide +kernel)
  obtain ⟨-, hopened'⟩ := lintWorkspace_stands (c := againCall) rfl rfl (by decide +kernel)
  have hoff : SameOutside skillsRoot staleCall.machine fullCall.outcome.2 :=
    ⟨fullCall_inside.workdir, fullCall_inside.same⟩
  rw [hopened, hopened']
  exact ⟨hoff.1, hoff.sameOff.same⟩

/-- The first call left a manifest that is no JSON; the second leaves the directory as one call
would have. -/
theorem retries_converge_full :
    fileText (fullCall.outcome.2.disk.get? (skillsRoot ++ [manifestFile])) = some fullDisk.left ∧
    ∃ result, againCall.outcome.1 = .ok result ∧ result.provisioned = ["lint"] ∧
      ∀ p, skillsRoot <+: p →
        againCall.outcome.2.disk.get? p = staleCall.outcome.2.disk.get? p := by
  obtain ⟨hstands, hopened⟩ :=
    lintWorkspace_stands (c := fullCall) rfl rfl (by decide +kernel)
  obtain ⟨-, hopened'⟩ := lintWorkspace_stands (c := staleCall) rfl rfl (by decide +kernel)
  obtain ⟨-, hagain⟩ := lintWorkspace_stands (c := againCall) rfl rfl (by decide +kernel)
  have hnext := hstands.mono (fullCall.machine.next_sameDisk.sameOutside skillsRoot)
  have hsame : SameOff {skillsRoot} staleCall.opened fullCall.opened := by
    rw [hopened, hopened']
    exact ⟨rfl, fun _ _ => rfl⟩
  have hretriable : fullCall.Retriable skillsRoot := by
    refine ⟨fun _ => hopened ▸ hnext, ?_, fun fault hfault => ?_⟩
    · rw [hopened]
      exact openSource_apart staleCall_noLinks
    · have hleft : ((fullCall.provisioner.upToManifest fullCall.workspace fullCall.user
          fullCall.opened).2.faults ((fullCall.provisioner.upToManifest fullCall.workspace
            fullCall.user fullCall.opened).2.tick + 1)).map Fault.left = some fullDisk.left := by
        decide +kernel
      rw [hfault] at hleft
      rw [Option.some.inj hleft]
      rfl
  have hrun : Retries skillsRoot staleCall againCall := by
    refine .again (.first ?_ fun p _ _ => ?_) hretriable (by decide +kernel) againCall_repeats
      fun p _ _ => ?_
    · exact .of_sameOff staleCall_ready rfl rfl rfl hsame
    · rw [hopened, hopened']
      rfl
    · rw [hagain]
      rfl
  have hreturned : staleCall.outcome.1 = .ok { provisioned := ["lint"], revoked := ["abtest"] } :=
    eq_ok_of_toOption (by decide +kernel)
  obtain ⟨result, hok, hresult, -, hdisk⟩ :=
    retries_converge hrun staleCall_ready againCall_ready hreturned
  refine ⟨by decide +kernel, result, hok, ?_, hdisk⟩
  exact congrArg ProvisionResult.provisioned hresult

end ClawEngine.Skills
