import ClawEngine.Laws.StoppedCalls
import ClawEngine.Posix.Arrivals

/-!
# What a call removes and keeps, with links anywhere

In a skills directory anything may stand when a call begins: users and agents leave files and links
in it, under the names of skills too. A call that returns has then removed the directories of the
skills that the manifest listed and that it did not provision, and no other entry. Two ways around
this are left open, and excluded here: a listed name may be a link into the skills directory, whose
target is removed in its place, and a skill may be reached through a directory that is removed.
-/

set_option autoImplicit false

namespace ClawEngine.Skills

open ClawEngine.Core ClawEngine.Core.Act ClawEngine.Posix ClawEngine.Context ClawEngine.Identity

variable {C : Type}

/-! ## What a manifest lists -/

/-- The names that are listed in the manifest of a skills directory, wherever its path leads. -/
def listedNames (json : JsonFile C) (dest : PosixPath) (m : Machine C) : Finset String :=
  match entryOf m (dest.child manifestFile) with
  | some (.file content) => (json.managed content).toOption.getD ∅
  | _ => ∅

/-- What is read of a manifest is what it lists. -/
theorem readManifest_listed {json : JsonFile C} {dest : PosixPath} {m m' : Machine C}
    {names : Finset String} (hok : readManifest json dest m = (.ok names, m')) :
    names = listedNames json dest m := by
  rcases readManifest_eq_ok hok with ⟨rfl, hmissing⟩ | ⟨q, content, hfound, hfile, hnames⟩
  · unfold listedNames
    split
    next content hentry =>
      -- a file that is there is read, or a fault says why not
      unfold entryOf at hentry
      split at hentry
      next q hq =>
        rcases readFile_found hq hentry with ⟨_, fault, -, hfault⟩ | hcontent
        · cases hmissing.symm.trans hfault
        · cases hmissing.symm.trans hcontent
      · cases hentry
    · rfl
  · have hentry : entryOf m (dest.child manifestFile) = some (.file content) := by
      rw [entryOf, hfound]
      exact hfile
    rw [listedNames, hentry]
    dsimp only
    rw [hnames]
    rfl

/-- A directory in its place lists nothing. -/
theorem listedNames_dir {json : JsonFile C} {dest : PosixPath} {R : Location} {m : Machine C}
    (hroot : Leads m dest R) (hdir : m.disk.get? (R ++ [manifestFile]) = some .dir) :
    listedNames json dest m = ∅ := by
  have hfound : lookup m true (dest.child manifestFile) = .found (R ++ [manifestFile]) :=
    hroot.goesOn.located (List.cons_ne_nil manifestFile []) hdir rfl true
  rw [listedNames, entryOf, hfound]
  dsimp only
  rw [hdir]

/-! ## The removal loop -/

section Removing

variable {depth : Nat} {dest : PosixPath} {R : Location} {m m' : Machine C} {s : String}
  {revoked revoked' : List String}

/-- Where the name is a link, it leads out of `R`, or to `R` itself, whatever else is made and
removed. -/
def LeadsAway (m : Machine C) (dest : PosixPath) (R : Location) (s : String) : Prop :=
  ∀ m', Spares ∅ m m' → Leads m' dest R → ∀ target, m'.disk.get? (R ++ [s]) = some (.link target) →
    ∀ T, realpath m' (dest.child s) = .ok T → T ∈ Outside R

theorem LeadsAway.mono (h : LeadsAway m dest R s) (hm : Spares ∅ m m') : LeadsAway m' dest R s :=
  fun m'' hm' => h m'' (hm.trans hm')

theorem leadsAway_of_plain (h : ∀ target, m.disk.get? (R ++ [s]) ≠ some (.link target)) :
    LeadsAway m dest R s := fun _ hm _ target hlink => absurd (hm.links _ target hlink) (h target)

/-- What `realpath` does not take below `R` is left alone. -/
theorem revokeSkill_away {T : Location} (hreal : realpath m (dest.child s) = .ok T)
    (hT : T ∈ Outside R) : revokeSkill depth dest R revoked s m = (.ok revoked, m) := by
  have hread : (Act.readE (realpath · (dest.child s)) : Fs C Location).mapError
      ProvisionError.fs m = (.ok T, m) := mapError_eq_ok.mpr (readE_eq_ok.mpr ⟨hreal, rfl⟩)
  refine (bind_of_ok hread).trans ?_
  have hout : (commonPath R T ≠ R || T = R : Bool) = true := by
    simp only [ne_eq, decide_not, Bool.or_eq_true, Bool.not_eq_true', decide_eq_false_iff_not,
      decide_eq_true_eq]
    by_contra hin
    obtain ⟨hcommon, hne⟩ := not_or.mp hin
    exact hT ⟨not_not.mp hcommon ▸ commonPath_prefix R T, hne⟩
  rw [if_pos hout]
  rfl

/-- **One step of the loop**: a directory at the name is removed, and nothing else happens. -/
theorem revokeSkill_exact (hroot : Leads m dest R) (hs : isEntryName s = true)
    (haway : LeadsAway m dest R s) (hok : revokeSkill depth dest R revoked s m = (.ok revoked', m')) :
    (m.disk.get? (R ++ [s]) = some .dir ∧ Confined (R ++ [s]) m m' ∧
      ∀ p, R ++ [s] <+: p → m'.disk.get? p = none) ∨
    (m.disk.get? (R ++ [s]) ≠ some .dir ∧ m' = m) := by
  by_cases hdir : m.disk.get? (R ++ [s]) = some .dir
  · obtain ⟨-, hconfined, hgone⟩ := revokeSkill_removes hroot hdir hok
    exact .inl ⟨hdir, hconfined, hgone⟩
  refine .inr ⟨hdir, ?_⟩
  by_cases hlink : ∃ target, m.disk.get? (R ++ [s]) = some (.link target)
  · obtain ⟨target, hlink⟩ := hlink
    cases hreal : realpath m (dest.child s) with
    | error e =>
      have hraise : (Act.readE (realpath · (dest.child s)) : Fs C Location).mapError
          ProvisionError.fs m = (.error (.fs e), m) := by
        simp only [Act.mapError, Act.readE, hreal]
      cases (bind_of_error hraise).symm.trans hok
    | ok T =>
      rw [revokeSkill_away hreal (haway m (.refl ∅ m) hroot target hlink T hreal)] at hok
      cases hok
      rfl
  · rw [revokeSkill_skips hroot hs (fun target h => hlink ⟨target, h⟩) hdir] at hok
    cases hok
    rfl

/-- The entries of `R` with names in `names`. -/
def placesOf (R : Location) (names : Set String) : Set Location := {p | ∃ s ∈ names, p = R ++ [s]}

/-- **The removal loop** removes the directories at the names it is given, and nothing else. -/
theorem revokeSkills_exact (names : List String) (hnames : ∀ s ∈ names, isEntryName s = true)
    (hroot : Leads m dest R) (haway : ∀ s ∈ names, LeadsAway m dest R s)
    (hend : lookup m' true dest = .found R)
    (hok : revokeSkills depth dest R names revoked m = (.ok revoked', m')) :
    SameOff (placesOf R {s | s ∈ names ∧ m.disk.get? (R ++ [s]) = some .dir}) m m' ∧
      ∀ s ∈ names, m.disk.get? (R ++ [s]) = some .dir → ∀ p, R ++ [s] <+: p →
        m'.disk.get? p = none := by
  induction names generalizing m revoked with
  | nil =>
    cases hok
    exact ⟨.refl _ _, nofun⟩
  | cons s names ih =>
    obtain ⟨revoked₁, m₁, hstep, hrest⟩ := bind_eq_ok.mp hok
    have hshrinks : Shrinks m₁ m' :=
      (revokeSkills_keeps (Shrinks.cuts m₁) _ R _ _).of_eq (.refl m₁) hrest
    have hrestNames := fun n hn => hnames n (List.mem_cons_of_mem s hn)
    have hrestAway := fun n hn => haway n (List.mem_cons_of_mem s hn)
    rcases revokeSkill_exact hroot (hnames s List.mem_cons_self) (haway s List.mem_cons_self)
      hstep with ⟨hdir, hconfined, hgone⟩ | ⟨hnodir, rfl⟩
    · have hoff : R ∈ Outside R := fun h => h.2 rfl
      have hroot₁ : Leads m₁ dest R := by
        refine leads_of_shrinks hshrinks ?_ hend
        rw [hconfined.outside R (outside_subset_beside R s hoff)]
        exact hroot.dir
      have hspares : Spares ∅ m m₁ := ⟨hconfined.workdir, nofun, hconfined.links⟩
      obtain ⟨hsame, hgone'⟩ := ih hrestNames hroot₁
        (fun n hn => (hrestAway n hn).mono hspares) hrest
      have hdirs : ∀ n, m₁.disk.get? (R ++ [n]) = some .dir →
          m.disk.get? (R ++ [n]) = some .dir := by
        intro n hn
        rwa [← hconfined.outside _ fun hpre => ?_]
        rw [hgone _ hpre] at hn
        cases hn
      refine ⟨⟨hsame.workdir.trans hconfined.workdir, fun p hp => ?_⟩, fun n hn hn' p hp => ?_⟩
      · rw [hsame.same p ?_, hconfined.outside p (hp _ ⟨s, ⟨List.mem_cons_self, hdir⟩, rfl⟩)]
        rintro _ ⟨n, ⟨hn, hn'⟩, rfl⟩
        exact hp _ ⟨n, ⟨List.mem_cons_of_mem s hn, hdirs n hn'⟩, rfl⟩
      · by_cases hns : n = s
        · subst hns
          cases hleft : m'.disk.get? p with
          | none => rfl
          | some e =>
            have hbefore := hshrinks.entries p e hleft
            rw [hgone p hp] at hbefore
            cases hbefore
        · refine hgone' n ((List.mem_cons.mp hn).resolve_left hns) ?_ p hp
          rw [hconfined.outside _ fun hpre => hns ?_]
          · exact hn'
          · exact (entry_prefix_inj hpre List.prefix_rfl).symm
    · obtain ⟨hsame, hgone⟩ := ih hrestNames hroot hrestAway hrest
      refine ⟨hsame.mono (covers_of_subset ?_), fun n hn hdir => ?_⟩
      · rintro _ ⟨n, ⟨hn, hdir⟩, rfl⟩
        exact ⟨n, ⟨List.mem_cons_of_mem s hn, hdir⟩, rfl⟩
      · rcases List.mem_cons.mp hn with rfl | hn
        · exact absurd hdir hnodir
        · exact hgone n hn hdir

end Removing

/-! ## The copy loop -/

/-- What the source has is a skill, where it says. -/
def SkillSource.Truthful (source : SkillSource C) : Prop :=
  ∀ m s path, source.hasSkill m s = true → source.skillDir m s = .ok path → isSkill m path = true

theorem localDirSkillSource_truthful (root : String) :
    (localDirSkillSource root : SkillSource C).Truthful := by
  intro m s path hhas hpath
  simp only [localDirSkillSource, Bool.and_eq_true] at hhas hpath
  simp only [validateSkillName, hhas.1, hhas.2, if_true] at hpath
  cases hpath
  exact hhas.2

section Copying

variable [Inhabited C] {P : SkillProvisioner C} {ws : ResolvedWorkspace} {user : User}
  {dest : PosixPath} {R : Location} {m m' : Machine C} {result result' : ProvisionResult}

/-- Nothing goes away in the copy loop, and the `SKILL.md` of each provisioned skill arrives. -/
theorem provisionSkills_arrive (htrue : P.source.Truthful) (skills : List String)
    (hroot : Leads m dest R)
    (hok : provisionSkills P ws user dest skills result m = (.ok result', m')) :
    Expands ∅ m m' ∧ ∀ s ∈ result'.provisioned,
      s ∈ result.provisioned ∨ ArrivedIn m' (dest.child s) "SKILL.md" := by
  induction skills generalizing result m with
  | nil =>
    cases hok
    exact ⟨.refl ∅ _, fun s hs => .inl hs⟩
  | cons skill skills ih =>
    obtain ⟨result₁, m₁, hskill, hrest⟩ := bind_eq_ok.mp hok
    have hplain : P.effective ws user m skill = true → isEntryName skill = true := by
      intro heffective
      simp only [SkillProvisioner.effective, Bool.and_eq_true] at heffective
      exact isEntryName_of_isPlainName heffective.1.1
    have hexpands : Expands ∅ m (provisionSkill P ws user dest result skill m).2 := by
      refine provisionSkill_keeps_at (.refl ∅ m) fun heffective src => ?_
      exact (writes_through hroot (hplain heffective)).copytree _ src (child_through dest skill) m
        (.refl ∅ m)
    rw [hskill] at hexpands
    obtain ⟨hexpands', harrived⟩ := ih (hexpands.leads hroot) hrest
    refine ⟨hexpands.trans hexpands', fun s hs => ?_⟩
    rcases harrived s hs with hs | harrived
    · rcases provisionSkill_copied hskill s hs with hs | ⟨rfl, heffective, src, hsrc, hcopied⟩
      · exact .inl hs
      · refine .inr (ArrivedIn.mono ?_ hexpands')
        have hhas : P.source.hasSkill m s = true := by
          simp only [SkillProvisioner.effective, Bool.and_eq_true] at heffective
          exact heffective.2
        have hfile := (Bool.and_eq_true_iff.mp (htrue m s src hhas hsrc)).2
        exact copytree_arrives hroot (hplain heffective) (by decide)
          ((arrived_iff_isfile (by decide)).mp hfile) hcopied
    · exact .inr harrived

/-! ## Writing the manifest -/

/-- Writing the manifest removes nothing and makes no directory; where the manifest is no link, it
changes nothing else. -/
theorem writeManifest_effects {json : JsonFile C} {names : Finset String} (hroot : Leads m dest R)
    (hok : writeManifest json dest names m = (.ok (), m')) :
    Expands ∅ m m' ∧ (∀ p, m'.disk.get? p = some .dir → m.disk.get? p = some .dir) ∧
      ((∀ target, m.disk.get? (R ++ [manifestFile]) ≠ some (.link target)) →
        ∀ p, ¬ R ++ [manifestFile] <+: p → m'.disk.get? p = m.disk.get? p) := by
  have hwrite := mapError_eq_ok.mp hok
  have hwrites := writes_through hroot isEntryName_manifestFile
  refine ⟨(hwrites.toFills.writeFile (child_through dest manifestFile) _).of_eq (.refl ∅ m) hwrite,
    ?_, fun hplain => ?_⟩
  · have hfills : Fills (fun m₁ : Machine C => ∀ p, m₁.disk.get? p = some .dir →
        m.disk.get? p = some .dir) Set.univ fun _ => True := by
      refine ⟨fun _ _ h => h, fun _ _ _ _ _ _ => trivial, fun m₁ q content h _ p hp => ?_⟩
      by_cases hcan : m₁.disk.CanPut q
      · have hget := (Disk.get?_put hcan (.file content) p).symm.trans hp
        split at hget
        · cases hget
        · exact h p hget
      · rw [Disk.put, dif_neg hcan] at hp
        exact h p hp
    exact (hfills.writeFile (Set.mem_univ _) _).of_eq (fun _ hp => hp) hwrite
  · have hnodir : m.disk.get? (R ++ [manifestFile]) ≠ some .dir := by
      intro hdir
      obtain ⟨q, m₁, hopen, -⟩ := bind_eq_ok.mp hwrite
      obtain ⟨_, m₂, hcheck, hopen⟩ := bind_eq_ok.mp hopen
      have hexpands : Expands ∅ m m₂ := hwrites.tick.checkFault.of_eq (.refl ∅ m) hcheck
      have hfound := (hexpands.leads hroot).goesOn.located (List.cons_ne_nil manifestFile [])
        (hexpands.kept.dir hdir) rfl true
      rw [show lookup m₂ true (dest.child manifestFile) = .found _ from hfound] at hopen
      dsimp only at hopen
      rw [if_pos (Disk.isDirAt_iff.mpr (hexpands.kept.dir hdir))] at hopen
      cases hopen
    have hslot : Slot m dest R manifestFile := by
      refine ⟨hroot, isEntryName_manifestFile, fun p hp target hlink => ?_⟩
      obtain ⟨rest, rfl⟩ := hp
      by_cases hrest : rest = []
      · rw [hrest, List.append_nil] at hlink
        exact hplain target hlink
      · exact hnodir (Disk.ancestor_dir hrest hlink)
    obtain ⟨hexpands, -⟩ := writeFile_slot hslot hwrite
    exact fun p hp => hexpands.same p hp

end Copying

/-! ## A call -/

section Calls

variable [Inhabited C] {c : ProvisionCall C} {R : Location} {result : ProvisionResult}

/-- The names that the manifest lists when the call reads it. -/
def ProvisionCall.listed (c : ProvisionCall C) : Finset String :=
  listedNames c.provisioner.json c.dest c.opened

/-- A directory at this name is to be removed: the manifest lists it, and the call has not
provisioned it. -/
def ProvisionCall.Outdated (c : ProvisionCall C) (result : ProvisionResult) (s : String) : Prop :=
  s ∈ c.listed ∧ s ∉ result.provisioned

/-- Where the `SKILL.md` of a copy is looked for does not depend on the places of `H`, whatever else
is made. -/
def ReachedApart (m : Machine C) (H : Set Location) (path : PosixPath) : Prop :=
  ∀ m', Expands ∅ m m' → ClearOf H m' (path.child "SKILL.md") ∧
    ClearOf H m' ((path.child "SKILL.md").child "SKILL.md")

/-- What a call that returned has done to the entries of the skills directory. -/
structure ExactlyRevoked (c : ProvisionCall C) (R : Location) (result : ProvisionResult) :
    Prop where
  /-- No directory is left at a name that was listed and not provisioned. -/
  removed : ∀ s, c.Outdated result s → c.outcome.2.disk.get? (R ++ [s]) ≠ some .dir
  /-- Nothing is left of it, unless the manifest is a link. -/
  gone : (∀ target, c.opened.disk.get? (R ++ [manifestFile]) ≠ some (.link target)) →
    ∀ s, c.Outdated result s → c.opened.disk.get? (R ++ [s]) = some .dir →
      ∀ p, R ++ [s] <+: p → c.outcome.2.disk.get? p = none
  /-- Every other entry is still there. -/
  kept : ∀ n, ¬ (c.Outdated result n ∧ c.opened.disk.get? (R ++ [n]) = some .dir) →
    c.machine.disk.get? (R ++ [n]) ≠ none → c.outcome.2.disk.get? (R ++ [n]) ≠ none
  /-- A skill that was provisioned is there, unless it is reached through what is removed. -/
  present : ∀ s ∈ result.provisioned,
    ReachedApart c.opened (placesOf R {n | c.Outdated result n}) (c.dest.child s) →
      ArrivedIn c.outcome.2 (c.dest.child s) "SKILL.md"

/-- What is not an outdated directory is not at or below one. -/
theorem placesOf_off {R : Location} {S : Set String} {n : String} (h : n ∉ S) :
    R ++ [n] ∈ Off (placesOf R S) := by
  rintro _ ⟨s, hs, rfl⟩ hpre
  rw [entry_prefix_inj hpre List.prefix_rfl] at hs
  exact h hs

/-- **Revocation is exact.** Whatever stands in the skills directory: a call that returns removes
the directories that the manifest listed and that it did not provision, and no other entry. -/
theorem provision_exact (htrue : c.provisioner.source.Truthful) (hroot : Leads c.opened c.dest R)
    (hok : c.outcome.1 = .ok result)
    (haway : ∀ s, c.Outdated result s → LeadsAway c.opened c.dest R s) :
    ExactlyRevoked c R result := by
  -- the call goes on from where the directory is made
  have hcall : c.provisioner.provisionOpened c.workspace c.user c.opened =
      (.ok result, c.outcome.2) := by
    have houtcome : c.provisioner.provision c.workspace c.user c.machine =
        (.ok result, c.outcome.2) := Prod.ext hok rfl
    rw [provision_eq] at houtcome
    obtain ⟨_, m, hmade, hopened⟩ := bind_eq_ok.mp houtcome
    have hmade := congrArg Prod.snd (mapError_eq_ok.mp hmade)
    rwa [show c.opened = m from hmade]
  obtain ⟨prev, m₁, copied, m₂, real, revoked, m₃, hread, hcopied, hreal, hrevoked, hwritten,
    hresult⟩ := provisionOpened_eq_ok.mp hcall
  have hprov : result.provisioned = copied.provisioned := by rw [hresult]
  have hprev : prev = c.listed := readManifest_listed hread
  have hsame : SameDisk c.opened m₁ := readManifest_same.of_eq ⟨rfl, rfl⟩ hread
  have hexpands₁ : Expands ∅ c.opened m₁ := .of_disk hsame.1 hsame.2
  have hroot₁ := hexpands₁.leads hroot
  obtain ⟨hexpands₂, harrived⟩ := provisionSkills_arrive htrue _ hroot₁ hcopied
  have hexpands := hexpands₁.trans hexpands₂
  have hroot₂ := hexpands₂.leads hroot₁
  cases (realpath_of_lookup hroot₂.found).symm.trans hreal
  have hshrinks : Shrinks m₂ m₃ :=
    (revokeSkills_keeps (Shrinks.cuts m₂) _ R _ _).of_eq (.refl m₂) hrevoked
  -- the path leads to `R` until the manifest is written
  obtain ⟨q, hend⟩ := writeManifest_leads hroot₂.nonempty hwritten
  obtain rfl : R = q := by
    have hbefore := lookup_ways hshrinks.ways hshrinks.workdir.symm
      (fun content hfile => ⟨content, hshrinks.entries q _ hfile⟩) hend
    cases hroot₂.found.symm.trans hbefore
    rfl
  have houtdated : ∀ s, s ∈ outdated prev copied.provisioned ↔ c.Outdated result s := by
    intro s
    rw [mem_outdated, hprev, ← hprov]
    rfl
  have hnames : ∀ s ∈ outdated prev copied.provisioned, isEntryName s = true := fun s hs =>
    isEntryName_of_isPlainName (readManifest_plain hread s (mem_outdated.mp hs).1)
  obtain ⟨hoff, hgone⟩ := revokeSkills_exact _ hnames hroot₂
    (fun s hs => (haway s ((houtdated s).mp hs)).mono hexpands.toSpares) hend hrevoked
  have hroot₃ : Leads m₃ c.dest R := by
    refine ⟨?_, hend⟩
    rw [hoff.same R]
    · exact hroot₂.dir
    · rintro _ ⟨s, -, rfl⟩ hpre
      exact (below_entry hpre).2 rfl
  obtain ⟨hexpands', hdirs, hbeside⟩ := writeManifest_effects hroot₃ hwritten
  refine ⟨fun s hs hdir => ?_, fun hplain s hs hdir p hp => ?_, fun n hn hthere => ?_,
    fun s hs hreached => ?_⟩
  · have hdir₃ := hdirs _ hdir
    have hdir₂ := hshrinks.entries _ _ hdir₃
    rw [hgone s ((houtdated s).mpr hs) hdir₂ _ List.prefix_rfl] at hdir₃
    cases hdir₃
  · have hgone₃ := hgone s ((houtdated s).mpr hs) (hexpands.kept.dir hdir) p hp
    rw [hbeside ?_ p ?_, hgone₃]
    · intro target hlink
      exact hplain target (hexpands.links _ target (hshrinks.entries _ _ hlink))
    · -- a manifest that is a directory lists nothing
      intro hpre
      obtain rfl := entry_prefix_inj hp hpre
      have hin := hs.1
      rw [ProvisionCall.listed, listedNames_dir hroot hdir] at hin
      exact absurd hin (Finset.notMem_empty _)
  · -- the entry is there once the directory is made, and still when the removals begin
    have hopened : (c.opened.disk.get? (R ++ [n])).isSome :=
      (makedirs_expands c.machine _ c.dest).kept.isSome
        (Option.isSome_iff_ne_none.mpr hthere)
    obtain ⟨e, he⟩ := Option.isSome_iff_exists.mp hopened
    have hentry : R ++ [n] ∈ Off (placesOf R {s | s ∈ outdated prev copied.provisioned ∧
        m₂.disk.get? (R ++ [s]) = some .dir}) := by
      refine placesOf_off fun hin => hn ⟨(houtdated n).mp hin.1, ?_⟩
      rw [he, hexpands.kept.dir_of_dir he hin.2]
    have hsome : (m₃.disk.get? (R ++ [n])).isSome := by
      rw [hoff.same _ hentry]
      exact hexpands.kept.isSome hopened
    exact Option.isSome_iff_ne_none.mp (hexpands'.kept.isSome hsome)
  · have harrived := (harrived s (hprov ▸ hs)).resolve_left List.not_mem_nil
    refine ArrivedIn.mono (m := m₃) ?_ hexpands'
    have hsub : Covers (placesOf R {n | c.Outdated result n})
        (placesOf R {n | n ∈ outdated prev copied.provisioned ∧
          m₂.disk.get? (R ++ [n]) = some .dir}) := by
      refine covers_of_subset ?_
      rintro _ ⟨n, ⟨hn, -⟩, rfl⟩
      exact ⟨n, (houtdated n).mp hn, rfl⟩
    obtain ⟨hclear, hclear'⟩ := hreached m₂ hexpands
    exact harrived.imp (·.sameOff (by decide) hclear (hoff.mono hsub))
      (·.sameOff (by decide) hclear' (hoff.mono hsub))

end Calls

/-! ## A call that removes one skill and copies another -/

/-- In a directory under its own location, a skill without links is reached apart from others. -/
theorem reachedApart_located {m : Machine C} {R : Location} {S : Set String} {s : String}
    (hdir : m.disk.get? R = some .dir) (hs : isEntryName s = true) (hlinks : NoLinks m (R ++ [s]))
    (hout : s ∉ S) : ReachedApart m (placesOf R S) (PosixPath.child ⟨true, R⟩ s) := by
  intro m' hm
  have hdir' := hm.kept.dir hdir
  have hnames : ∀ name ∈ R, isEntryName name = true := Disk.names_of_some hdir'
  -- along `R` stand directories, and below the skill there are no links
  have hclear : ∀ rest : List String, (∀ name ∈ rest, isEntryName name = true) →
      ClearOf (placesOf R S) m' ⟨true, R ++ s :: rest⟩ := by
    intro rest hrest m'' hm''
    have hcases : ∀ q, q <+: R ++ s :: rest → q <+: R ∨ R ++ [s] <+: q := by
      intro q hq
      rw [List.append_cons] at hq
      rcases List.prefix_or_prefix_of_prefix hq (List.prefix_append (R ++ [s]) rest) with h | h
      · rcases List.prefix_concat_iff.mp h with rfl | h
        · exact .inr List.prefix_rfl
        · exact .inl h
      · exact .inr h
    refine lookup_agree (fun name hname => ?_) (fun q hq target hlink => ?_) fun q hq => ?_
    · rcases List.mem_append.mp hname with hname | hname
      · exact hnames name hname
      · rcases List.mem_cons.mp hname with rfl | hname
        · exact hs
        · exact hrest name hname
    · rcases hcases q hq with ⟨rest', rfl⟩ | hbelow
      · by_cases hnil : rest' = []
        · rw [hnil, List.append_nil] at hdir'
          rw [hdir'] at hlink
          cases hlink
        · rw [Disk.ancestor_dir hnil hdir'] at hlink
          cases hlink
      · exact hlinks q hbelow target (hm.links q target hlink)
    · refine hm''.same q ?_
      rintro _ ⟨n, hn, rfl⟩ hpre
      rcases hcases q hq with habove | hbelow
      · exact (below_entry (hpre.trans habove)).2 rfl
      · rw [entry_prefix_inj hpre hbelow] at hn
        exact hout hn
  have hpath : ∀ rest : List String,
      PosixPath.descend (PosixPath.child ⟨true, R⟩ s) rest = ⟨true, R ++ s :: rest⟩ := by
    intro rest
    rw [PosixPath.descend, PosixPath.child, List.append_cons R s rest]
  have hfile := hclear ["SKILL.md"] (by decide)
  have hnested := hclear ["SKILL.md", "SKILL.md"] (by decide)
  rw [← hpath] at hfile hnested
  refine ⟨hfile, ?_⟩
  rwa [show PosixPath.child _ "SKILL.md" = PosixPath.descend _ ["SKILL.md"] from rfl, child_descend]

/-- A call that is to replace one skill by another. -/
def replacingCall : ProvisionCall (List Char) :=
  { callOn [(skillsRoot ++ ["old"], .dir), (skillsRoot ++ ["old", "SKILL.md"], .file "old".toList),
      (skillsRoot ++ [manifestFile], .file (textFile.dump (manifestOf ["old"])))] with
    workspace := lintWorkspace }

/-- The old skill is gone, and the new one there. -/
theorem provision_exact_replacing :
    replacingCall.outcome.2.disk.get? (skillsRoot ++ ["old"]) = none ∧
      ArrivedIn replacingCall.outcome.2 (replacingCall.dest.child "lint") "SKILL.md" := by
  have hdest : replacingCall.dest = ⟨true, skillsRoot⟩ := by with_unfolding_all rfl
  have hroot : Leads replacingCall.machine replacingCall.dest skillsRoot := by
    rw [hdest]
    exact (standsAt_located (Disk.isDirAt_iff.mp (by decide +kernel))).leads
  have hsame : SameDisk replacingCall.machine replacingCall.opened :=
    makedirs_leads hroot _
  have hlinks : ∀ p target, replacingCall.opened.disk.get? p ≠ some (.link target) := by
    rw [hsame.1]
    exact callOn_noLinks (by decide)
  have hroot' : Leads replacingCall.opened replacingCall.dest skillsRoot :=
    Expands.leads (.of_disk hsame.1 hsame.2 : Expands ∅ _ _) hroot
  have hok : replacingCall.outcome.1 = .ok { provisioned := ["lint"], revoked := ["old"] } :=
    eq_ok_of_toOption (by decide +kernel)
  have hold : replacingCall.Outdated { provisioned := ["lint"], revoked := ["old"] } "old" :=
    ⟨by decide +kernel, by decide⟩
  have hexact := provision_exact (localDirSkillSource_truthful "/src") hroot' hok
    fun s _ => leadsAway_of_plain fun target => hlinks _ target
  refine ⟨hexact.gone (hlinks _) "old" hold (Disk.isDirAt_iff.mp (by decide +kernel)) _
    List.prefix_rfl, hexact.present "lint" List.mem_cons_self ?_⟩
  have hdir := hroot'.dir
  rw [hdest]
  exact reachedApart_located hdir (by decide) (fun p _ => hlinks p) fun hout => hout.2 (by decide)

end ClawEngine.Skills
