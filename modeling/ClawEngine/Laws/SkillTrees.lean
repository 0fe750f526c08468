import ClawEngine.Laws.Provisioning
import ClawEngine.Posix.Copies

/-!
# What provisioning leaves of a skill

A call that returns has laid the source's tree of each provisioned skill over what was in the
workspace (`shutil.copytree` with `dirs_exist_ok`). It takes nothing away: what the source no longer
has is still there, so the two trees are equal exactly if nothing else was there before.

The source is seen through its links, and no path of it leads into the skills directory: it does not
change while a call runs. No link stands in the skills directory, and calls make none.
-/

set_option autoImplicit false

namespace ClawEngine.Skills

open ClawEngine.Core ClawEngine.Core.Act ClawEngine.Posix ClawEngine.Context ClawEngine.Identity

variable {C : Type}

/-! ## The trees of a source -/

/-- The tree of a skill in the source. -/
def SkillSource.tree (source : SkillSource C) (m : Machine C) (skill : String) : Posix.Tree C :=
  match source.skillDir m skill with
  | .ok path => treeOf m path
  | .error _ => fun _ => none

theorem SkillSource.tree_of_ok {source : SkillSource C} {m : Machine C} {skill : String}
    {path : PosixPath} (h : source.skillDir m skill = .ok path) :
    source.tree m skill = treeOf m path := by
  rw [SkillSource.tree, h]

/-- What the source answers does not depend on what is at or below `R`: neither which skills there
are nor what is in them. -/
structure SkillSource.ApartFrom (source : SkillSource C) (R : Location) (m : Machine C) : Prop where
  hasSkill : ∀ m', SameOff {R} m m' → ∀ s, source.hasSkill m' s = source.hasSkill m s
  skillDir : ∀ m', SameOff {R} m m' → ∀ s, source.skillDir m' s = source.skillDir m s
  trees : ∀ s path, source.skillDir m s = .ok path →
    ∃ p name, path = PosixPath.child p name ∧ isEntryName name = true ∧ Apart {R} m path

namespace SkillSource.ApartFrom

variable {source : SkillSource C} {R : Location} {m m' : Machine C}

theorem congr (h : source.ApartFrom R m) (hm : SameOff {R} m m') : source.ApartFrom R m' where
  hasSkill m'' hm' s := (h.hasSkill m'' (hm.trans hm') s).trans (h.hasSkill m' hm s).symm
  skillDir m'' hm' s := (h.skillDir m'' (hm.trans hm') s).trans (h.skillDir m' hm s).symm
  trees s path hpath := by
    rw [h.skillDir m' hm] at hpath
    obtain ⟨p, name, rfl, hname, hapart⟩ := h.trees s path hpath
    exact ⟨p, name, rfl, hname, hapart.congr hm⟩

/-- The trees of such a source stay. -/
theorem tree_eq (h : source.ApartFrom R m) (hm : SameOff {R} m m') (s : String) :
    source.tree m' s = source.tree m s := by
  unfold SkillSource.tree
  rw [h.skillDir m' hm]
  cases hdir : source.skillDir m s with
  | error e => rfl
  | ok path =>
    obtain ⟨p, name, rfl, hname, hapart⟩ := h.trees s path hdir
    exact hapart.treeOf_eq hname hm

theorem tree_noLink (h : source.ApartFrom R m) (s : String) (rel : List String)
    (target : String) : source.tree m s rel ≠ some (.link target) := by
  unfold SkillSource.tree
  cases hdir : source.skillDir m s with
  | error e => exact fun hlink => Option.some_ne_none _ hlink.symm
  | ok path =>
    obtain ⟨p, name, rfl, hname, -⟩ := h.trees s path hdir
    exact treeOf_noLink hname rel target

end SkillSource.ApartFrom

/-- Whether a path is a skill does not depend on places that it is apart from. -/
theorem isSkill_of_apart {H : Set Location} {m m' : Machine C} {p : PosixPath} {s : String}
    (h : Apart H m (p.child s)) (hs : isEntryName s = true) (hm : SameOff H m m') :
    isSkill m' (p.child s) = isSkill m (p.child s) := by
  have hmd : isEntryName "SKILL.md" = true := by decide
  have hdir := h.self.entryOf_eq hs hm
  have hfile := (h.child hmd).self.entryOf_eq hmd hm
  rw [isSkill, isSkill, Bool.eq_iff_iff, Bool.and_eq_true, Bool.and_eq_true, isdir_eq_entryOf,
    isdir_eq_entryOf, isfile_eq_entryOf hmd, isfile_eq_entryOf hmd, hdir, hfile]

/-- A `LocalDirSkillSource` is apart from `R` where no path of its skills leads there. -/
theorem localDirSkillSource_apart {root : String} {R : Location} {m : Machine C}
    (h : ∀ s, isPlainName s = true → Apart {R} m ((PosixPath.ofString root).child s)) :
    (localDirSkillSource root : SkillSource C).ApartFrom R m := by
  have hskill : ∀ m', SameOff {R} m m' → ∀ s, isPlainName s = true →
      isSkill m' ((PosixPath.ofString root).child s) =
        isSkill m ((PosixPath.ofString root).child s) := by
    intro m' hm s hs
    exact isSkill_of_apart (h s hs) (isEntryName_of_isPlainName hs) hm
  refine ⟨fun m' hm s => ?_, fun m' hm s => ?_, fun s path hpath => ?_⟩
  · dsimp only [localDirSkillSource]
    cases hs : isPlainName s with
    | false => rfl
    | true => rw [hskill m' hm s hs]
  · dsimp only [localDirSkillSource]
    cases hs : isPlainName s with
    | false =>
      simp only [validateSkillName, hs, Bool.false_eq_true, if_false]
      rfl
    | true => rw [hskill m' hm s hs]
  · obtain ⟨u, hvalid, hpath⟩ := except_bind_eq_ok.mp hpath
    have hs : isPlainName s = true := by
      unfold validateSkillName at hvalid
      split at hvalid
      next hs => exact hs
      next => cases hvalid
    dsimp only at hpath
    split at hpath
    · cases hpath
      exact ⟨_, s, rfl, isEntryName_of_isPlainName hs, h s hs⟩
    · cases hpath

/-! ## The copy loop -/

section Laying

variable {R : Location} {m m' m'' : Machine C} {tree : String → Posix.Tree C} {written : List String}

/-- From `m` to `m'` the trees of the written skills were laid over what was at their places below
`R`, and nothing else happened. -/
structure SkillsLaid (tree : String → Posix.Tree C) (R : Location) (written : List String)
    (m m' : Machine C) : Prop where
  expands : Expands (Outside R) m m'
  plain : ∀ s ∈ written, isPlainName s = true
  there : ∀ s ∈ written, m'.disk.get? (R ++ [s]) = some .dir
  laid : ∀ s ∈ written, LaidOver s (tree s) (m.disk.treeAt (R ++ [s])) (m'.disk.treeAt (R ++ [s]))
  other : ∀ s, s ∉ written → m'.disk.treeAt (R ++ [s]) = m.disk.treeAt (R ++ [s])

namespace SkillsLaid

theorem refl (tree : String → Posix.Tree C) (R : Location) (m : Machine C) : SkillsLaid tree R [] m m :=
  ⟨.refl _ m, nofun, nofun, nofun, fun _ _ => rfl⟩

theorem sameOff (h : SkillsLaid tree R written m m') : SameOff {R} m m' :=
  h.expands.sameOutside.sameOff

/-- It does not matter what had been counted before. -/
theorem of_sameDisk (h : SkillsLaid tree R written m' m'') (hm : SameDisk m m') :
    SkillsLaid tree R written m m'' where
  expands := (Expands.of_disk hm.1 hm.2).trans h.expands
  plain := h.plain
  there := h.there
  laid := by
    rw [← hm.1]
    exact h.laid
  other := by
    rw [← hm.1]
    exact h.other

/-- A skill that is written again is laid over itself. -/
theorem trans {written' : List String} (h : SkillsLaid tree R written m m')
    (h' : SkillsLaid tree R written' m' m'') : SkillsLaid tree R (written ++ written') m m'' where
  expands := h.expands.trans h'.expands
  plain s hs := (List.mem_append.mp hs).elim (h.plain s) (h'.plain s)
  there s hs := (List.mem_append.mp hs).elim (fun hs => h'.expands.kept.dir (h.there s hs))
    (h'.there s)
  laid s hs := by
    by_cases hfirst : s ∈ written
    · by_cases hagain : s ∈ written'
      · exact (h.laid s hfirst).again (h'.laid s hagain)
      · rw [h'.other s hagain]
        exact h.laid s hfirst
    · rw [← h.other s hfirst]
      exact h'.laid s ((List.mem_append.mp hs).resolve_left hfirst)
  other s hs := by
    obtain ⟨hfirst, hagain⟩ := not_or.mp (mt List.mem_append.mpr hs)
    rw [h'.other s hagain, h.other s hfirst]

end SkillsLaid

end Laying

section Copying

variable [Inhabited C] {P : SkillProvisioner C} {ws : ResolvedWorkspace} {user : User}
  {dest : PosixPath} {R : Location} {m m' : Machine C} {result result' : ProvisionResult}

/-- A skill that is provisioned is laid over what was there. -/
theorem provisionSkill_lays {skill : String} (hsource : P.source.ApartFrom R m)
    (hroot : Leads m dest R) (hlinks : NoLinks m R)
    (hok : provisionSkill P ws user dest result skill m = (.ok result', m')) :
    ∃ written, result'.provisioned = result.provisioned ++ written ∧
      SkillsLaid (P.source.tree m) R written m m' := by
  cases heffective : P.effective ws user m skill with
  | false =>
    obtain ⟨hresult, rfl⟩ := provisionSkill_skips heffective hok
    exact ⟨[], by rw [hresult, List.append_nil], .refl _ R _⟩
  | true =>
    simp only [SkillProvisioner.effective, Bool.and_eq_true] at heffective
    obtain ⟨⟨hplain, hallowed⟩, hhas⟩ := heffective
    have hslot : Slot m dest R skill := ⟨hroot, isEntryName_of_isPlainName hplain,
      fun p hp => hlinks p ((List.prefix_append R [skill]).trans hp)⟩
    unfold provisionSkill at hok
    rw [hplain, hallowed, Bool.not_true, if_neg Bool.false_ne_true, if_neg Bool.false_ne_true,
      read_bind, hhas, if_pos rfl] at hok
    obtain ⟨src, m₁, hread, hok⟩ := bind_eq_ok.mp hok
    obtain ⟨hsrc, rfl⟩ := readE_eq_ok.mp (mapError_eq_ok.mp hread)
    obtain ⟨_, m₂, hcopied, hok⟩ := bind_eq_ok.mp hok
    cases hok
    have hcopy := mapError_eq_ok.mp hcopied
    obtain ⟨hexpands, hdir⟩ := copytree_slot hslot hcopy
    obtain ⟨p, name, -, -, hapart⟩ := hsource.trees skill src hsrc
    have hlaid := (copytree_lays _).laid hslot (hapart.mono (covers_below R _)) hcopy
    refine ⟨[skill], rfl, hexpands.mono (outside_subset_beside R skill), ?_, ?_, ?_, ?_⟩
    · intro s hs
      rwa [List.mem_singleton.mp hs]
    · intro s hs
      rwa [List.mem_singleton.mp hs]
    · intro s hs
      obtain rfl := List.mem_singleton.mp hs
      rwa [SkillSource.tree_of_ok hsrc]
    · exact fun s hs => treeAt_beside hexpands fun heq => hs (heq ▸ List.mem_singleton_self s)

/-- **The copy loop lays every skill it provisions over what was there.** -/
theorem provisionSkills_lay (hsource : P.source.ApartFrom R m) (hroot : Leads m dest R)
    (hlinks : NoLinks m R) (skills : List String)
    (hok : provisionSkills P ws user dest skills result m = (.ok result', m')) :
    ∃ written, result'.provisioned = result.provisioned ++ written ∧
      SkillsLaid (P.source.tree m) R written m m' := by
  induction skills generalizing result m with
  | nil =>
    cases hok
    exact ⟨[], (List.append_nil _).symm, .refl _ R _⟩
  | cons skill skills ih =>
    obtain ⟨result₁, m₁, hskill, hrest⟩ := bind_eq_ok.mp hok
    obtain ⟨first, hfirst, hlaid⟩ := provisionSkill_lays hsource hroot hlinks hskill
    obtain ⟨rest, hresult, hlaid'⟩ := ih (hsource.congr hlaid.sameOff) (hlaid.expands.leads hroot)
      (hlinks.mono hlaid.expands.links) hrest
    have htree : P.source.tree m₁ = P.source.tree m := funext (hsource.tree_eq hlaid.sameOff)
    rw [htree] at hlaid'
    exact ⟨first ++ rest, by rw [hresult, hfirst, List.append_assoc], hlaid.trans hlaid'⟩

end Copying

/-! ## The removal loop -/

section Revoking

variable {json : JsonFile C} {depth : Nat} {dest : PosixPath} {R : Location} {m m' : Machine C}
  {revoked revoked' : List String}

/-- Where a path leads once entries were removed, it led before. -/
theorem leads_of_shrinks (h : Shrinks m m') (hdir : m.disk.get? R = some .dir)
    (hend : lookup m' true dest = .found R) : Leads m dest R := by
  refine ⟨hdir, lookup_ways h.ways h.workdir.symm (fun content hfile => ?_) hend⟩
  exact ⟨content, h.entries R _ hfile⟩

/-- The names that are read from a manifest are valid, whatever is in it. -/
theorem readManifest_plain {managed : Finset String}
    (hok : readManifest json dest m = (.ok managed, m')) : ∀ s ∈ managed, isPlainName s = true := by
  obtain ⟨outcome, m₁, -, hok⟩ := bind_eq_ok.mp hok
  split at hok
  · cases hok
    exact fun s hs => absurd hs (Finset.notMem_empty s)
  · cases hok
  next content =>
    cases hload : json.load content with
    | error e =>
      simp only [hload] at hok
      split at hok
      · cases hok
        exact fun s hs => absurd hs (Finset.notMem_empty s)
      · cases hok
    | ok data =>
      simp only [hload] at hok
      obtain ⟨hread, -⟩ := readE_eq_ok.mp (mapError_eq_ok.mp hok)
      unfold readManaged at hread
      split at hread
      · cases hread
      · obtain ⟨entries, -, hnames⟩ := except_bind_eq_ok.mp hread
        cases hnames
        exact fun s hs => (mem_managedNames.mp hs).2

/-- Where no directory stands at the name, and no link, nothing happens. -/
theorem revokeSkill_skips {s : String} (hroot : Leads m dest R) (hs : isEntryName s = true)
    (hplain : ∀ target, m.disk.get? (R ++ [s]) ≠ some (.link target))
    (hnodir : m.disk.get? (R ++ [s]) ≠ some .dir) :
    revokeSkill depth dest R revoked s m = (.ok revoked, m) := by
  have hreal : (Act.readE (realpath · (dest.child s)) : Fs C Location).mapError
      ProvisionError.fs m = (.ok (R ++ [s]), m) := mapError_eq_ok.mpr (readE_eq_ok.mpr
    ⟨realpath_child hroot.found hs hplain, rfl⟩)
  refine (bind_of_ok hreal).trans ?_
  have hlook := hroot.goesOn.lookup_plain hs hplain
  have hself : Leads m ⟨true, R⟩ R := ⟨hroot.dir, lookup_located hroot.dir rfl⟩
  have hlocated := hself.goesOn.lookup_plain hs hplain
  have hnot : ¬ isdir m ⟨true, R ++ [s]⟩ = true := fun hisdir => by
    obtain ⟨q, hq, hdir⟩ := isdir_iff.mp hisdir
    have hq' : lookup m true (PosixPath.child ⟨true, R⟩ s) = .found q := hq
    rw [hlocated] at hq'
    split at hq'
    · cases hq'
    · cases hq'
      exact hnodir hdir
  split
  · rfl
  rw [read_bind, if_neg hnot]
  rfl

/-- The names of which a directory stands in `R`. -/
def dirsAmong (m : Machine C) (R : Location) (names : List String) : List String :=
  names.filter fun s => m.disk.isDirAt (R ++ [s])

theorem mem_dirsAmong {names : List String} {s : String} :
    s ∈ dirsAmong m R names ↔ s ∈ names ∧ m.disk.get? (R ++ [s]) = some .dir := by
  rw [dirsAmong, List.mem_filter, Disk.isDirAt_iff]

theorem dirsAmong_cons (m : Machine C) (R : Location) (s : String) (names : List String) :
    dirsAmong m R (s :: names) = dirsAmong m R [s] ++ dirsAmong m R names := by
  rw [← List.singleton_append]
  exact List.filter_append [s] names

/-- Directories are the same where what is at the names is. -/
theorem dirsAmong_congr {names : List String}
    (h : ∀ s ∈ names, m'.disk.get? (R ++ [s]) = m.disk.get? (R ++ [s])) :
    dirsAmong m' R names = dirsAmong m R names :=
  List.filter_congr fun s hs => by rw [Disk.isDirAt, Disk.isDirAt, h s hs]

theorem dirsAmong_pos {s : String} (hdir : m.disk.get? (R ++ [s]) = some .dir) :
    dirsAmong m R [s] = [s] := List.filter_eq_self.mpr fun s' hs' => by
  rw [List.mem_singleton.mp hs']
  exact Disk.isDirAt_iff.mpr hdir

theorem dirsAmong_neg {s : String} (hdir : m.disk.get? (R ++ [s]) ≠ some .dir) :
    dirsAmong m R [s] = [] := List.filter_eq_nil_iff.mpr fun s' hs' => by
  rw [List.mem_singleton.mp hs']
  exact fun h => hdir (Disk.isDirAt_iff.mp h)

/-- Removing a skill removes the directory of its name, if there is one, and nothing else. -/
theorem revokeSkill_outcome {s : String} (hroot : Leads m dest R) (hname : isEntryName s = true)
    (hlinks : NoLinks m R) (hok : revokeSkill depth dest R revoked s m = (.ok revoked', m')) :
    revoked' = revoked ++ dirsAmong m R [s] ∧ Removed R (dirsAmong m R [s]) m m' := by
  by_cases hdir : m.disk.get? (R ++ [s]) = some .dir
  · obtain ⟨hrevoked, hconfined, hgone⟩ := revokeSkill_removes hroot hdir hok
    rw [dirsAmong_pos hdir]
    exact ⟨hrevoked, .of_confined hconfined hgone⟩
  · rw [revokeSkill_skips hroot hname (hlinks _ (List.prefix_append R [s])) hdir] at hok
    cases hok
    rw [dirsAmong_neg hdir, List.append_nil]
    exact ⟨rfl, .refl R _⟩

/-- What one removal of the loop leaves for the rest: the other directories. -/
theorem dirsAmong_rest {s : String} {names : List String} (hnew : s ∉ names)
    (h : Removed R (dirsAmong m R [s]) m m') : dirsAmong m' R names = dirsAmong m R names := by
  refine dirsAmong_congr fun s' hs' => h.kept _ fun x hx hpre => hnew ?_
  obtain rfl := List.mem_singleton.mp (mem_dirsAmong.mp hx).1
  rwa [entry_prefix_inj hpre List.prefix_rfl]

/-- **The removal loop** removes the directories of the names it is given, if the path still leads
to `R` at the end: it then did so all the time. -/
theorem revokeSkills_outcome (skills : List String) (hnodup : skills.Nodup)
    (hnames : ∀ s ∈ skills, isEntryName s = true) (hdir : m.disk.get? R = some .dir)
    (hlinks : NoLinks m R) (hok : revokeSkills depth dest R skills revoked m = (.ok revoked', m'))
    (hend : lookup m' true dest = .found R) :
    revoked' = revoked ++ dirsAmong m R skills ∧ Removed R (dirsAmong m R skills) m m' := by
  induction skills generalizing revoked m with
  | nil =>
    cases hok
    exact ⟨(List.append_nil _).symm, .refl R _⟩
  | cons skill skills ih =>
    have hroot : Leads m dest R := leads_of_shrinks
      ((revokeSkills_keeps (Shrinks.cuts m) dest R _ revoked).of_eq (.refl m) hok) hdir hend
    obtain ⟨revoked₁, m₁, hskill, hrest⟩ := bind_eq_ok.mp hok
    obtain ⟨hnew, hnodup⟩ := List.nodup_cons.mp hnodup
    obtain ⟨hfirst, hremoved⟩ :=
      revokeSkill_outcome hroot (hnames skill List.mem_cons_self) hlinks hskill
    have hdir₁ : m₁.disk.get? R = some .dir :=
      (hremoved.sameOutside.2 R fun hne => hne.2 rfl).trans hdir
    obtain ⟨hthen, hremoved'⟩ := ih hnodup (fun s hs => hnames s (List.mem_cons_of_mem _ hs)) hdir₁
      (hlinks.mono fun p target => hremoved.shrinks.entries p _) hrest
    rw [dirsAmong_rest hnew hremoved] at hthen hremoved'
    rw [dirsAmong_cons, ← List.append_assoc, ← hfirst]
    exact ⟨hthen, hremoved.trans hremoved'⟩

end Revoking

/-! ## One call -/

section Call

variable {P : SkillProvisioner C} {ws : ResolvedWorkspace} {user : User} {R : Location}
  {m m' : Machine C} {result : ProvisionResult}

theorem mem_outdated {prev : Finset String} {provisioned : List String} {s : String} :
    s ∈ outdated prev provisioned ↔ s ∈ prev ∧ s ∉ provisioned := by
  rw [outdated, Finset.mem_sort, Finset.mem_sdiff, List.mem_toFinset]

theorem outdated_nodup (prev : Finset String) (provisioned : List String) :
    (outdated prev provisioned).Nodup := Finset.sort_nodup _ _

/-- What a call leaves that returned: `m₂` once the skills are copied, `m₃` once the outdated ones
are removed, and `m'` with the manifest. -/
structure CallStages (P : SkillProvisioner C) (ws : ResolvedWorkspace) (R : Location)
    (prev : Finset String) (result : ProvisionResult) (m m₂ m₃ m' : Machine C) : Prop where
  laid : SkillsLaid (P.source.tree m) R result.provisioned m m₂
  revoked : result.revoked = dirsAmong m₂ R (outdated prev result.provisioned)
  removed : Removed R result.revoked m₂ m₃
  leads : Leads m₃ (P.destRoot ws) R
  written : Expands (Beside (R ++ [manifestFile])) m₃ m'
  manifest : m'.disk.get? (R ++ [manifestFile]) =
    some (.file (P.json.dump (manifestOf (result.provisioned.toFinset.sort (· ≤ ·)))))

namespace CallStages

variable {prev : Finset String} {m₂ m₃ : Machine C}

theorem sameOff (h : CallStages P ws R prev result m m₂ m₃ m') : SameOff {R} m m' :=
  (h.laid.sameOff.trans h.removed.sameOutside.sameOff).trans
    (h.written.mono (outside_subset_beside R _)).sameOutside.sameOff

theorem not_revoked (h : CallStages P ws R prev result m m₂ m₃ m') {s : String}
    (hs : s ∈ result.provisioned) : s ∉ result.revoked := by
  rw [h.revoked]
  exact fun hrevoked => (mem_outdated.mp (mem_dirsAmong.mp hrevoked).1).2 hs

/-- What is provisioned is there before the manifest is written, so it is not the manifest. -/
theorem ne_manifestFile (h : CallStages P ws R prev result m m₂ m₃ m') {s : String}
    (hs : s ∈ result.provisioned) : s ≠ manifestFile := by
  rintro rfl
  have hdir : m₃.disk.get? (R ++ [manifestFile]) = some .dir := by
    rw [h.removed.kept _ fun s' hs' hpre => ?_]
    · exact h.laid.there _ hs
    · rw [← entry_prefix_inj hpre List.prefix_rfl] at hs
      exact h.not_revoked hs hs'
  have hfile := h.manifest
  rw [h.written.kept.dir hdir] at hfile
  cases hfile

/-- **What the call leaves of a skill it provisions**: the source's tree laid over what was
there. -/
theorem laidOver (h : CallStages P ws R prev result m m₂ m₃ m') {s : String}
    (hs : s ∈ result.provisioned) : LaidOver s (P.source.tree m s) (m.disk.treeAt (R ++ [s]))
      (m'.disk.treeAt (R ++ [s])) := by
  rw [treeAt_beside h.written (h.ne_manifestFile hs), h.removed.treeAt_eq (h.not_revoked hs)]
  exact h.laid.laid s hs

end CallStages

variable [Inhabited C]

/-- Where the manifest was written, the path leads to the directory it is in. -/
theorem writeManifest_leads {json : JsonFile C} {dest : PosixPath} {managed : Finset String}
    (hdest : dest.absolute = true ∨ dest.names ≠ [])
    (hok : writeManifest json dest managed m = (.ok (), m')) :
    ∃ q, lookup m true dest = .found q := by
  obtain ⟨q, m₁, hopen, -⟩ := bind_eq_ok.mp (mapError_eq_ok.mp hok)
  obtain ⟨_, m₂, hcheck, hopen⟩ := bind_eq_ok.mp hopen
  have hsame : SameDisk m m₂ := (SameDisk.ticks m).checkFault.of_eq ⟨rfl, rfl⟩ hcheck
  have hlook : ∀ p, lookup m₂ true p = lookup m true p := fun p => by
    rw [lookup, lookup, hsame.1, hsame.2]
  refine lookup_head hdest fun e (he : lookup m true (dest.child manifestFile) = .error e) => ?_
  have hraised : lookup m₂ true (dest.child manifestFile) = .error e := (hlook _).trans he
  rw [hraised] at hopen
  cases hopen

theorem provision_eq : P.provision ws user =
    ((makedirs P.depths.makedirs (P.destRoot ws)).mapError ProvisionError.fs >>= fun _ =>
      P.provisionOpened ws user) := rfl

/-- **When a call returns**: its stages do, one after another. -/
theorem provisionOpened_eq_ok : P.provisionOpened ws user m = (.ok result, m') ↔
    ∃ prev m₁ copied m₂ real revoked m₃,
      readManifest P.json (P.destRoot ws) m = (.ok prev, m₁) ∧
      provisionSkills P ws user (P.destRoot ws) ws.allowedSkills {} m₁ = (.ok copied, m₂) ∧
      realpath m₂ (P.destRoot ws) = .ok real ∧
      revokeSkills P.depths.rmtree (P.destRoot ws) real (outdated prev copied.provisioned) [] m₂ =
        (.ok revoked, m₃) ∧
      writeManifest P.json (P.destRoot ws) copied.provisioned.toFinset m₃ = (.ok (), m') ∧
      result = { copied with revoked } := by
  constructor
  · intro hok
    obtain ⟨prev, m₁, hread, hok⟩ := bind_eq_ok.mp hok
    obtain ⟨copied, m₂, hcopy, hok⟩ := bind_eq_ok.mp hok
    obtain ⟨real, _, hresolved, hok⟩ := bind_eq_ok.mp hok
    obtain ⟨hreal, rfl⟩ := readE_eq_ok.mp (mapError_eq_ok.mp hresolved)
    obtain ⟨revoked, m₃, hrevoke, hok⟩ := bind_eq_ok.mp hok
    obtain ⟨_, m₄, hwrite, hok⟩ := bind_eq_ok.mp hok
    cases hok
    exact ⟨prev, m₁, copied, m₂, real, revoked, m₃, hread, hcopy, hreal, hrevoke, hwrite, rfl⟩
  · rintro ⟨prev, m₁, copied, m₂, real, revoked, m₃, hread, hcopy, hreal, hrevoke, hwrite, rfl⟩
    have hresolved : (Act.readE (realpath · (P.destRoot ws)) : Fs C Location).mapError
        ProvisionError.fs m₂ = (.ok real, m₂) := mapError_eq_ok.mpr (readE_eq_ok.mpr ⟨hreal, rfl⟩)
    refine bind_eq_ok.mpr ⟨prev, m₁, hread, bind_eq_ok.mpr ⟨copied, m₂, hcopy, ?_⟩⟩
    refine bind_eq_ok.mpr ⟨real, m₂, hresolved, bind_eq_ok.mpr ⟨revoked, m₃, hrevoke, ?_⟩⟩
    exact bind_eq_ok.mpr ⟨(), m', hwrite, rfl⟩

/-- **The stages of a call that returned**, where no path of the source leads into the skills
directory and no link stands in it. -/
theorem provisionOpened_stages (hroot : Leads m (P.destRoot ws) R) (hlinks : NoLinks m R)
    (hsource : P.source.ApartFrom R m)
    (hok : P.provisionOpened ws user m = (.ok result, m')) :
    ∃ prev m₁ copied m₂ revoked m₃, readManifest P.json (P.destRoot ws) m = (.ok prev, m₁) ∧
      provisionSkills P ws user (P.destRoot ws) ws.allowedSkills {} m₁ = (.ok copied, m₂) ∧
      revokeSkills P.depths.rmtree (P.destRoot ws) R (outdated prev copied.provisioned) [] m₂ =
        (.ok revoked, m₃) ∧ result = { copied with revoked } ∧
      CallStages P ws R prev result m m₂ m₃ m' := by
  obtain ⟨prev, m₁, copied, m₂, real, revoked, m₃, hread, hcopy, hreal, hrevoke, hwrite, rfl⟩ :=
    provisionOpened_eq_ok.mp hok
  have hsame : SameDisk m m₁ := readManifest_same.of_eq ⟨rfl, rfl⟩ hread
  have hexpands₁ : Expands ∅ m m₁ := .of_disk hsame.1 hsame.2
  have hroot₁ := hexpands₁.leads hroot
  have hlinks₁ : NoLinks m₁ R := hlinks.mono hexpands₁.links
  have hoff₁ : SameOff {R} m m₁ := .of_sameDisk hsame _
  obtain ⟨written, hwritten, hlaid⟩ :=
    provisionSkills_lay (hsource.congr hoff₁) hroot₁ hlinks₁ _ hcopy
  obtain rfl : copied.provisioned = written := hwritten
  have hroot₂ := hlaid.expands.leads hroot₁
  have hlinks₂ : NoLinks m₂ R := hlinks₁.mono hlaid.expands.links
  cases (realpath_of_lookup hroot₂.found).symm.trans hreal
  -- the path leads to `R` until the manifest is written
  have hshrinks : Shrinks m₂ m₃ :=
    (revokeSkills_keeps (Shrinks.cuts m₂) _ R _ []).of_eq (.refl m₂) hrevoke
  obtain ⟨q, hend⟩ := writeManifest_leads hroot₂.nonempty hwrite
  have hstill := lookup_ways hshrinks.ways hshrinks.workdir.symm
    (fun content hfile => ⟨content, hshrinks.entries q _ hfile⟩) hend
  cases hroot₂.found.symm.trans hstill
  obtain ⟨hrevoked, hremoved⟩ := revokeSkills_outcome _ (outdated_nodup _ _)
    (fun s hs => isEntryName_of_isPlainName (readManifest_plain hread s (mem_outdated.mp hs).1))
    hroot₂.dir hlinks₂ hrevoke hend
  have hroot₃ : Leads m₃ (P.destRoot ws) R :=
    ⟨(hremoved.sameOutside.2 R fun hne => hne.2 rfl).trans hroot₂.dir, hend⟩
  have hslot : Slot m₃ (P.destRoot ws) R manifestFile := ⟨hroot₃, by decide,
    fun p hp target ht => hlinks₂ p ((List.prefix_append R _).trans hp) target
      (hshrinks.entries p _ ht)⟩
  obtain ⟨hexpands₄, hfile⟩ := writeFile_slot hslot (mapError_eq_ok.mp hwrite)
  rw [List.nil_append] at hrevoked
  have htree : P.source.tree m₁ = P.source.tree m := funext (hsource.tree_eq hoff₁)
  rw [htree] at hlaid
  exact ⟨prev, m₁, copied, m₂, revoked, m₃, hread, hcopy, hrevoke, rfl, hlaid.of_sameDisk hsame,
    hrevoked, hrevoked ▸ hremoved, hroot₃, hexpands₄, hfile⟩

/-- **A call that returns lays every skill it provisions over what was there**, and changes nothing
outside the skills directory once that is made. -/
theorem provision_lays
    (hroot : Leads (makedirs P.depths.makedirs (P.destRoot ws) m).2 (P.destRoot ws) R)
    (hlinks : NoLinks (makedirs P.depths.makedirs (P.destRoot ws) m).2 R)
    (hsource : P.source.ApartFrom R (makedirs P.depths.makedirs (P.destRoot ws) m).2)
    (hok : P.provision ws user m = (.ok result, m')) :
    SameOff {R} (makedirs P.depths.makedirs (P.destRoot ws) m).2 m' ∧
      ∀ s ∈ result.provisioned, LaidOver s (P.source.tree m' s)
        ((makedirs P.depths.makedirs (P.destRoot ws) m).2.disk.treeAt (R ++ [s]))
        (m'.disk.treeAt (R ++ [s])) := by
  rw [provision_eq] at hok
  obtain ⟨_, m₀, hmade, hok⟩ := bind_eq_ok.mp hok
  rw [mapError_eq_ok.mp hmade] at hroot hlinks hsource ⊢
  obtain ⟨_, _, _, _, _, _, -, -, -, -, hstages⟩ := provisionOpened_stages hroot hlinks hsource hok
  refine ⟨hstages.sameOff, fun s hs => ?_⟩
  rw [hsource.tree_eq hstages.sameOff]
  exact hstages.laidOver hs

/-- A call keeps what survives making, copying and removing anything, whether it returns or
raises. -/
theorem provisionOpened_keeps {J : Machine C → Prop}
    (h : Carries J Set.univ (fun _ => True) (fun _ => True) (fun _ => True))
    (hcuts : ∀ q, Cuts J q) : Keeps J (P.provisionOpened ws user) := by
  refine (readManifest_keeps h.tick _ _).bind fun prev => ?_
  refine (provisionSkills_keeps h (fun _ _ _ _ => Set.mem_univ _) _ _ _).bind fun result => ?_
  refine ((keeps_readE _).mapError _).bind fun real => ?_
  refine (revokeSkills_keeps hcuts _ _ _ _).bind fun revoked => ?_
  exact ((h.writeFile (by decide) trivial).mapError _).bind fun _ => keeps_pure _

theorem provision_keeps {J : Machine C → Prop}
    (h : Carries J Set.univ (fun _ => True) (fun _ => True) (fun _ => True))
    (hcuts : ∀ q, Cuts J q) : Keeps J (P.provision ws user) :=
  ((h.makes.makedirs _ (Set.mem_univ _)).mapError _).bind fun _ => provisionOpened_keeps h hcuts

/-- No link is added. -/
theorem spares_carries (m : Machine C) :
    Carries (Spares ∅ m) Set.univ (fun _ => True) (fun _ => True) (fun _ => True) where
  tick := Spares.ticks ∅ m
  dir _ _ _ hm _ := hm.put (Set.notMem_empty _) rfl
  lands _ _ _ _ _ _ _ := trivial
  file _ _ _ hm _ _ := hm.put (Set.notMem_empty _) rfl
  child _ _ _ _ := Set.mem_univ _
  opens _ _ _ _ _ _ := trivial
  reads _ _ _ _ _ _ := trivial
  dropped := trivial
  left _ _ _ _ _ := trivial

end Call

/-! ## Calls one after another -/

/-- A call of `provision`, which may return or raise. -/
structure ProvisionCall (C : Type) where
  provisioner : SkillProvisioner C
  workspace : ResolvedWorkspace
  user : User
  machine : Machine C

namespace ProvisionCall

variable [Inhabited C]

/-- `dest_root`. -/
def dest (c : ProvisionCall C) : PosixPath := c.provisioner.destRoot c.workspace

/-- The machine once `dest_root` is made. -/
def opened (c : ProvisionCall C) : Machine C :=
  (makedirs c.provisioner.depths.makedirs c.dest c.machine).2

/-- What the call returns or raises, and the machine it leaves. -/
def outcome (c : ProvisionCall C) : Except ProvisionError ProvisionResult × Machine C :=
  c.provisioner.provision c.workspace c.user c.machine

end ProvisionCall

/-- The calls of a run on the skills directory `R`, the last one first. No link stands there at
first. Between two calls the source, and everything else outside `R`, may change; what is in `R` is
what the call before left. -/
inductive ProvisionCalls [Inhabited C] (R : Location) : List (ProvisionCall C) → Prop
  | first {c : ProvisionCall C} (hroot : Leads c.opened c.dest R) (hlinks : NoLinks c.opened R)
    (hsource : c.provisioner.source.ApartFrom R c.opened) : ProvisionCalls R [c]
  | next {c prev : ProvisionCall C} {earlier : List (ProvisionCall C)}
    (hrun : ProvisionCalls R (prev :: earlier)) (hroot : Leads c.machine c.dest R)
    (hsource : c.provisioner.source.ApartFrom R c.opened)
    (hothers : ∀ p, R <+: p → c.machine.disk.get? p = prev.outcome.2.disk.get? p) :
    ProvisionCalls R (c :: prev :: earlier)

section Calls

variable [Inhabited C] {R : Location} {c : ProvisionCall C} {earlier : List (ProvisionCall C)}

/-- A call, returning or raising, leaves no link where there was none. -/
theorem ProvisionCall.noLinks_after (h : NoLinks c.machine R) : NoLinks c.outcome.2 R := by
  have hspares : Spares ∅ c.machine c.outcome.2 :=
    provision_keeps (spares_carries c.machine) (fun q => Spares.cuts fun p hp => hp.elim) c.machine
      (.refl ∅ c.machine)
  exact h.mono hspares.links

theorem ProvisionCall.noLinks (h : NoLinks c.opened R) : NoLinks c.outcome.2 R :=
  ProvisionCall.noLinks_after fun p hp target ht =>
    h p hp target (makedirs_extends _ c.dest c.machine (fun _ _ he => he) p _ ht)

/-- What the last call of a run finds: its path leads to the skills directory, no link is there, and
the source is elsewhere. -/
theorem ProvisionCalls.last (h : ProvisionCalls R (c :: earlier)) :
    Leads c.opened c.dest R ∧ NoLinks c.opened R ∧ c.provisioner.source.ApartFrom R c.opened ∧
      ∀ prev rest, earlier = prev :: rest →
        ∀ p, R <+: p → c.opened.disk.get? p = prev.outcome.2.disk.get? p := by
  generalize hcalls : c :: earlier = calls at h
  induction h generalizing c earlier with
  | first hroot hlinks hsource =>
    cases hcalls
    exact ⟨hroot, hlinks, hsource, nofun⟩
  | @next call prev rest hrun hroot hsource hothers ih =>
    obtain ⟨rfl, rfl⟩ := List.cons.inj hcalls
    obtain ⟨-, hlinks, -⟩ := ih rfl
    have hsame : SameDisk c.machine c.opened := makedirs_leads hroot _
    have hexpands : Expands ∅ c.machine c.opened := .of_disk hsame.1 hsame.2
    have hbelow : ∀ p, R <+: p → c.opened.disk.get? p = prev.outcome.2.disk.get? p := by
      intro p hp
      rw [hsame.1]
      exact hothers p hp
    refine ⟨hexpands.leads hroot, fun p hp target => ?_, hsource, ?_⟩
    · rw [hbelow p hp]
      exact ProvisionCall.noLinks hlinks p hp target
    · intro _ _ hearlier
      cases hearlier
      exact hbelow

/-- **Calls lay the source's trees over what is in the workspace.** After the last call of a run, if
it returned, this is what is under the name of every skill it provisioned: the source's tree as it
then is, laid over what was there once `dest_root` was made, which is what the call before left. The
two trees are equal exactly if all that was there has a place in the source's tree, and directories
have places of directories. -/
theorem skills_laid_over (hcalls : ProvisionCalls R (c :: earlier)) {result : ProvisionResult}
    (hok : c.outcome.1 = .ok result) (s : String) (hs : s ∈ result.provisioned) :
    LaidOver s (c.provisioner.source.tree c.outcome.2 s) (c.opened.disk.treeAt (R ++ [s]))
        (c.outcome.2.disk.treeAt (R ++ [s])) ∧
      ((∀ rel, c.outcome.2.disk.treeAt (R ++ [s]) rel =
          c.provisioner.source.tree c.outcome.2 s rel) ↔
        ∀ rel, c.opened.disk.treeAt (R ++ [s]) rel ≠ none →
          c.provisioner.source.tree c.outcome.2 s rel ≠ none ∧
            (c.opened.disk.treeAt (R ++ [s]) rel = some .dir →
              c.provisioner.source.tree c.outcome.2 s rel = some .dir)) ∧
      ∀ prev rest, earlier = prev :: rest →
        c.opened.disk.treeAt (R ++ [s]) = prev.outcome.2.disk.treeAt (R ++ [s]) := by
  obtain ⟨hroot, hlinks, hsource, hbefore⟩ := hcalls.last
  have hreturned : c.outcome = (.ok result, c.outcome.2) := Prod.ext hok rfl
  obtain ⟨hoff, hlays⟩ := provision_lays hroot hlinks hsource hreturned
  have hlaid := hlays s hs
  refine ⟨hlaid, hlaid.eq_iff ((hsource.congr hoff).tree_noLink s), fun prev rest hearlier => ?_⟩
  funext rel
  exact hbefore prev rest hearlier _ ((List.prefix_append R _).trans (List.prefix_append _ rel))

end Calls

/-! ## A run -/

/-- A file of the source. -/
def notesAt : Location := ["src", "lint", "NOTES"]

/-- A first call, which copies a skill with a note in it. -/
def firstCall : ProvisionCall (List Char) where
  provisioner := openProvisioner
  workspace := { skilledWorkspace with allowedSkills := ["lint"] }
  user := skilledUser
  machine := { disk := skillsDisk.put notesAt (.file "1".toList) }

/-- A second call, before which the note was removed from the source. -/
def secondCall : ProvisionCall (List Char) :=
  { firstCall with machine :=
      { firstCall.outcome.2 with disk := firstCall.outcome.2.disk.prune notesAt } }

/-- A call on a disk with some entries more. -/
def callOn (entries : List (Location × Entry (List Char))) : ProvisionCall (List Char) where
  provisioner := openProvisioner
  workspace := skilledWorkspace
  user := skilledUser
  machine := { disk := entries.foldl (fun d e => d.put e.1 e.2) skillsDisk }

/-- In the workspace one file of the skill is a link to another. -/
def linkedCall : ProvisionCall (List Char) :=
  callOn [(["src", "lint", "a"], .file "1".toList), (["src", "lint", "b"], .file "2".toList),
    (skillsRoot ++ ["lint"], .dir), (skillsRoot ++ ["lint", "a"], .link "b")]

/-- In the source one file of the skill is a link to a file of another skill in the workspace. -/
def crossedCall : ProvisionCall (List Char) :=
  callOn [(["src", "lint", "a"], .link "/ws/.agents/skills/abtest/SKILL.md"),
    (skillsRoot ++ ["abtest"], .dir), (skillsRoot ++ ["abtest", "SKILL.md"], .file "0".toList)]

/-- The text of a file. -/
def fileText : Option (Entry (List Char)) → Option (List Char)
  | some (.file content) => some content
  | _ => none

/-- The call returns, has provisioned the skill, and another text is seen at a place of it in the
workspace than in the source. -/
def ProvisionCall.differs (c : ProvisionCall (List Char)) (s : String) (rel : List String) : Bool :=
  match c.outcome with
  | (.error _, _) => false
  | (.ok result, after) =>
    decide (s ∈ result.provisioned) && decide (fileText (treeOf after (c.dest.child s) rel) ≠
      fileText (c.provisioner.source.tree after s rel))

/-- Putting what is no link makes none. -/
theorem noLinks_put {d : Disk C} (h : ∀ p target, d.get? p ≠ some (.link target)) (q : Location)
    {e : Entry C} (he : e.isLink = false) (p : Location) (target : String) :
    (d.put q e).get? p ≠ some (.link target) := by
  have hput : Spares ∅ (Machine.mk d [] (fun _ => none) 0) _ :=
    (Spares.refl ∅ _).put (Set.notMem_empty q) he
  exact fun hlink => h p target (hput.links p target hlink)

/-- No link is on a disk to which none was added. -/
theorem callOn_noLinks {entries : List (Location × Entry (List Char))}
    (h : ∀ e ∈ entries, e.2.isLink = false) (p : Location) (target : String) :
    (callOn entries).machine.disk.get? p ≠ some (.link target) := by
  have hputs : ∀ d : Disk (List Char), (∀ p target, d.get? p ≠ some (.link target)) →
      ∀ p target, (entries.foldl (fun d e => d.put e.1 e.2) d).get? p ≠ some (.link target) := by
    induction entries with
    | nil => exact fun _ hd => hd
    | cons e entries ih =>
      intro d hd
      exact ih (fun e he => h e (List.mem_cons_of_mem _ he)) _
        (noLinks_put hd e.1 (h e List.mem_cons_self))
  exact hputs skillsDisk skillsDisk_noLinks p target

theorem firstCall_noLinks (p : Location) (target : String) :
    firstCall.machine.disk.get? p ≠ some (.link target) :=
  noLinks_put skillsDisk_noLinks notesAt rfl p target

theorem secondCall_noLinks (p : Location) (target : String) :
    secondCall.machine.disk.get? p ≠ some (.link target) := by
  have hcall : Spares ∅ firstCall.machine firstCall.outcome.2 :=
    provision_keeps (spares_carries _) (fun q => Spares.cuts fun p hp => hp.elim) _ (.refl ∅ _)
  exact fun h => firstCall_noLinks p target (hcall.links p target (Disk.get?_of_prune h))

/-- What is below `/src` is apart from the skills directory. -/
theorem openSource_paths {m : Machine (List Char)}
    (hlinks : ∀ p target, m.disk.get? p ≠ some (.link target)) (s : String)
    (hs : isPlainName s = true) : Apart {skillsRoot} m ((PosixPath.ofString "/src").child s) := by
  have hroot : PosixPath.ofString "/src" = ⟨true, ["src"]⟩ := by with_unfolding_all rfl
  rw [hroot]
  refine apart_of_noLinks (by decide) hlinks (fun q hq hbelow => ?_) (isEntryName_of_isPlainName hs)
  obtain ⟨q, rfl⟩ := hbelow
  rcases hq with hq | hq
  · exact absurd hq.length_le (by simp [skillsRoot])
  · obtain ⟨_, hq⟩ := hq
    exact absurd (List.cons.inj hq).1 (by decide)

theorem openSource_apart {m : Machine (List Char)}
    (hlinks : ∀ p target, m.disk.get? p ≠ some (.link target)) :
    openProvisioner.source.ApartFrom skillsRoot m :=
  localDirSkillSource_apart (openSource_paths hlinks)

theorem calls_run : ProvisionCalls skillsRoot [secondCall, firstCall] := by
  have hdest : firstCall.dest = ⟨true, skillsRoot⟩ := by with_unfolding_all rfl
  have hleads : ∀ m : Machine (List Char), m.disk.isDirAt skillsRoot = true →
      Leads m firstCall.dest skillsRoot := fun m hm => by
    rw [hdest]
    exact ⟨Disk.isDirAt_iff.mp hm, lookup_located (Disk.isDirAt_iff.mp hm) rfl⟩
  have hsame : ∀ c : ProvisionCall (List Char), Leads c.machine c.dest skillsRoot →
      SameDisk c.machine c.opened := fun c hc => makedirs_leads hc _
  have hfirst := hleads firstCall.machine (by decide +kernel)
  have hsecond : Leads secondCall.machine secondCall.dest skillsRoot :=
    hleads secondCall.machine (by decide +kernel)
  have hopened : ∀ p target, firstCall.opened.disk.get? p ≠ some (.link target) := by
    rw [(hsame _ hfirst).1]
    exact firstCall_noLinks
  have hopened' : ∀ p target, secondCall.opened.disk.get? p ≠ some (.link target) := by
    rw [(hsame _ hsecond).1]
    exact secondCall_noLinks
  refine .next (.first ?_ (fun p _ => hopened p) (openSource_apart hopened)) hsecond
    (openSource_apart hopened') fun p hp => ?_
  · have hexpands : Expands ∅ firstCall.machine firstCall.opened :=
      .of_disk (hsame _ hfirst).1 (hsame _ hfirst).2
    exact hexpands.leads hfirst
  · refine Disk.get?_prune_of_apart _ fun hpre => ?_
    obtain ⟨q, rfl⟩ := hp
    obtain ⟨_, hq⟩ := hpre
    exact absurd (List.cons.inj hq).1 (by decide)

/-- The second call leaves the note that the source no longer has as the first call left it. -/
theorem skills_laid_over_note :
    secondCall.outcome.2.disk.treeAt (skillsRoot ++ ["lint"]) ["NOTES"] =
      firstCall.outcome.2.disk.treeAt (skillsRoot ++ ["lint"]) ["NOTES"] := by
  have hok : secondCall.outcome.1 = .ok { provisioned := ["lint"] } :=
    eq_ok_of_toOption (by decide +kernel)
  obtain ⟨hlaid, -, hbefore⟩ := skills_laid_over calls_run hok "lint" (by decide)
  have hremoved : secondCall.provisioner.source.tree secondCall.outcome.2 "lint" ["NOTES"] = none :=
    Option.isNone_iff_eq_none.mp (by decide +kernel)
  rw [hlaid.other _ hremoved fun init hinit => ?_, hbefore firstCall [] rfl]
  -- no file of the source is named after the skill
  have hinit : [] ++ ["NOTES"] = init ++ [init.getLastD "lint"] := hinit
  obtain ⟨hnil, hname⟩ := List.append_inj' hinit rfl
  subst hnil
  exact absurd hname (by decide)

/-- **A refresh need not make a skill equal to its source.** After a second call a note is still in
the workspace that the source no longer has. Nor is the one laid over the other where a file of the
skill in the workspace is a link to another one, or where the source leads into the workspace. -/
theorem refresh_differs : ProvisionCalls skillsRoot [secondCall, firstCall] ∧
    secondCall.differs "lint" ["NOTES"] = true ∧ linkedCall.differs "lint" ["a"] = true ∧
    crossedCall.differs "lint" ["a"] = true := by
  refine ⟨calls_run, ?_, ?_, ?_⟩
  all_goals decide +kernel

end ClawEngine.Skills
