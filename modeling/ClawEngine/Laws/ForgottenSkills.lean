import ClawEngine.Laws.StoppedCalls

/-!
# Skills that the manifest forgets

The manifest is to name every skill that the provisioner put into the skills directory, so that one
that is no longer wanted can be removed. It is written at the end of a call, though: a call that
raises after its first copy leaves a directory that no manifest names and no later call removes.
`manifest_remembers` says when nothing is forgotten, over all calls of a run, returning or raising.
-/

set_option autoImplicit false

namespace ClawEngine.Skills

open ClawEngine.Core ClawEngine.Core.Act ClawEngine.Posix ClawEngine.Context ClawEngine.Identity

variable {C : Type}

/-! ## What is listed -/

/-- The manifest in `R` names the skill. -/
def Listed (json : JsonFile C) (R : Location) (m : Machine C) (s : String) : Prop :=
  ∃ names, storedNames json R m = .ok names ∧ s ∈ names

section Lists

variable {json : JsonFile C} {R : Location} {m m' : Machine C} {s : String} {dest : PosixPath}
  {names : Finset String}

theorem Listed.mem (h : Listed json R m s) (hnames : storedNames json R m = .ok names) :
    s ∈ names := by
  obtain ⟨names', hnames', hs⟩ := h
  cases hnames'.symm.trans hnames
  exact hs

/-- It is listed in a file. -/
theorem Listed.file (h : Listed json R m s) :
    ∃ content, m.disk.get? (R ++ [manifestFile]) = some (.file content) := by
  obtain ⟨names, hnames, hs⟩ := h
  unfold storedNames at hnames
  split at hnames
  next content hfile => exact ⟨content, hfile⟩
  · cases hnames
    exact absurd hs (Finset.notMem_empty s)

theorem Listed.congr
    (hsame : m'.disk.get? (R ++ [manifestFile]) = m.disk.get? (R ++ [manifestFile])) :
    Listed json R m' s ↔ Listed json R m s := by
  rw [Listed, Listed, storedNames, storedNames, hsame]

/-- What is read of a manifest is what is stored. -/
theorem readManifest_stored (hroot : Leads m dest R) (hlinks : NoLinks m R)
    (hnodir : m.disk.get? (R ++ [manifestFile]) ≠ some .dir)
    (hok : readManifest json dest m = (.ok names, m')) : storedNames json R m = .ok names := by
  have hnolink : ∀ target, m.disk.get? (R ++ [manifestFile]) ≠ some (.link target) :=
    hlinks _ (List.prefix_append R _)
  have hlook := hroot.goesOn.lookup_plain isEntryName_manifestFile hnolink
  unfold storedNames
  cases hentry : m.disk.get? (R ++ [manifestFile]) with
  | none =>
    rw [if_pos hentry] at hlook
    rcases readManifest_eq_ok hok with ⟨rfl, -⟩ | ⟨q, content, hfound, -, -⟩
    · rfl
    · cases hlook.symm.trans hfound
  | some e =>
    rw [if_neg (by rw [hentry]; exact Option.some_ne_none _)] at hlook
    cases e with
    | dir => exact absurd hentry hnodir
    | link target => exact absurd hentry (hnolink target)
    | file content =>
      rcases readManifest_eq_ok hok with ⟨-, hmissing⟩ | ⟨q, content', hfound, hfile, hnames⟩
      · -- a file that is there is read, or a fault says why not
        rcases readFile_found hlook hentry with ⟨_, fault, -, hfault⟩ | hcontent
        · cases hmissing.symm.trans hfault
        · cases hmissing.symm.trans hcontent
      · cases hlook.symm.trans hfound
        cases hentry.symm.trans hfile
        exact hnames

/-- A directory is not read. -/
theorem readManifest_dir (hroot : Leads m dest R)
    (hdir : m.disk.get? (R ++ [manifestFile]) = some .dir) :
    (readManifest json dest m).1.toOption = none := by
  have hfound : lookup m true (dest.child manifestFile) = .found (R ++ [manifestFile]) :=
    lookup_located_below hroot (List.cons_ne_nil _ []) hdir rfl
  cases hread : readManifest json dest m with
  | mk answer m' =>
    cases answer with
    | error e => rfl
    | ok names =>
      rcases readManifest_eq_ok hread with ⟨-, hmissing⟩ | ⟨q, content, hfound', hfile, -⟩
      · -- opening it raises another error
        rcases checkFault_cases m with ⟨_, fault, -, hcheck⟩ | hcheck
        · have hopen : openRead (dest.child manifestFile) m = (.error fault.error, m.next) :=
            bind_of_error hcheck
          rw [readFile, bind_of_error hopen] at hmissing
          cases hmissing
        · have hopen : openRead (dest.child manifestFile) m = (.error .isADirectory, m.next) := by
            have hisdir : m.next.disk.isDirAt (R ++ [manifestFile]) = true :=
              Disk.isDirAt_iff.mpr hdir
            refine (bind_of_ok hcheck).trans ?_
            show readE _ m.next = _
            simp only [readE, Machine.lookup_next, hfound, hisdir, if_true]
          rw [readFile, bind_of_error hopen] at hmissing
          cases hmissing
      · cases hfound.symm.trans hfound'
        cases hdir.symm.trans hfile

end Lists

/-! ## A call that returned -/

section Call

variable [Inhabited C] {P : SkillProvisioner C} {ws : ResolvedWorkspace} {user : User} {R : Location}
  {m m' : Machine C} {result : ProvisionResult}

/-- **A call that returned** lists what it provisioned; of the other directories it has made none,
and has left none that was listed. -/
theorem provisionOpened_tracks (hroot : Leads m (P.destRoot ws) R)
    (hlinks : NoLinks m R) (hsource : P.source.ApartFrom R m)
    (hnodir : m.disk.get? (R ++ [manifestFile]) ≠ some .dir)
    (hok : P.provisionOpened ws user m = (.ok result, m')) :
    (∀ s ∈ result.provisioned, Listed P.json R m' s) ∧ ∀ s, s ∉ result.provisioned →
      (Listed P.json R m s → m.disk.get? (R ++ [s]) = some .dir →
        m'.disk.get? (R ++ [s]) = none) ∧
      (m'.disk.get? (R ++ [s]) = some .dir → m.disk.get? (R ++ [s]) = some .dir) := by
  obtain ⟨prev, m₁, copied, m₂, revoked, m₃, hread, -, -, -, hstages⟩ :=
    provisionOpened_stages hroot hlinks hsource hok
  have hstored := readManifest_stored hroot hlinks hnodir hread
  have hleaves := hstages.leaves
  have hgone : ∀ s, s ≠ manifestFile → s ∈ result.revoked → m'.disk.get? (R ++ [s]) = none := by
    intro s hs hrevoked
    have hnone := hleaves.gone s hs hrevoked []
    rwa [Disk.treeAt, List.append_nil] at hnone
  refine ⟨fun s hs => ⟨result.provisioned.toFinset, ?_, List.mem_toFinset.mpr hs⟩,
    fun s hs => ⟨fun hlisted hdir => ?_, fun hdir => ?_⟩⟩
  · simp only [storedNames, hleaves.manifest]
    exact P.json.managed_manifest fun s hs => hstages.laid.plain s (List.mem_toFinset.mp hs)
  · refine hgone s (fun heq => hnodir (heq ▸ hdir)) ?_
    rw [hstages.revoked, hstages.laid.dirsAmong_outdated]
    exact mem_dirsAmong.mpr ⟨mem_outdated.mpr ⟨hlisted.mem hstored, hs⟩, hdir⟩
  · have hname : s ≠ manifestFile := by
      rintro rfl
      rw [hleaves.manifest] at hdir
      cases hdir
    have hrevoked : s ∉ result.revoked := fun hin => by
      rw [hgone s hname hin] at hdir
      cases hdir
    have hsame := congrFun (hleaves.other s hname hs hrevoked) []
    rw [Disk.treeAt, Disk.treeAt, List.append_nil] at hsame
    rw [← hsame, hdir]

end Call

/-! ## A call that raised -/

section Raised

variable {P : SkillProvisioner C} {ws : ResolvedWorkspace} {user : User} {R : Location}
  {m m' : Machine C}

/-- From `m` to `m'` only the entries of listed skills changed, and not the manifest. -/
structure OnlyListed (json : JsonFile C) (R : Location) (m m' : Machine C) : Prop where
  spares : Spares (BesideAll R {s | Listed json R m s}) m m'
  manifest : m'.disk.get? (R ++ [manifestFile]) = m.disk.get? (R ++ [manifestFile])

namespace OnlyListed

variable {json : JsonFile C}

theorem sameOutside (h : OnlyListed json R m m') : SameOutside R m m' :=
  ⟨h.spares.workdir, fun p hp => h.spares.same p (outside_subset_besideAll R _ hp)⟩

theorem slot {dest : PosixPath} (h : OnlyListed json R m m') (hstands : StandsAt m dest R)
    (hlinks : NoLinks m R) {s : String} (hs : isEntryName s = true) : Slot m' dest R s :=
  ⟨(hstands.mono h.sameOutside).leads, hs,
    fun p hp => hlinks.mono h.spares.links p ((List.prefix_append R [s]).trans hp)⟩

/-- Removing a listed skill. -/
theorem revokeSkill {depth : Nat} {dest : PosixPath} (h : OnlyListed json R m m')
    (hstands : StandsAt m dest R) (hlinks : NoLinks m R) {s : String} (hs : isEntryName s = true)
    (hlisted : Listed json R m s) (revoked : List String) :
    OnlyListed json R m (Skills.revokeSkill depth dest R revoked s m').2 := by
  have hslot := h.slot hstands hlinks hs
  by_cases hname : s = manifestFile
  · subst hname
    obtain ⟨content, hfile⟩ := hlisted.file
    rw [revokeSkill_skips hslot.leads hslot.name (hslot.noLinks _ List.prefix_rfl)
      (by rw [h.manifest, hfile]; exact nofun)]
    exact h
  · refine revokeSkill_keeps_slot hslot ⟨fun _ _ h => ?_, fun m₁ q h hq => ?_⟩ h revoked
    · exact ⟨Spares.ticks _ _ _ _ h.spares, h.manifest⟩
    · refine ⟨h.spares.prune fun p hp hqp => ?_, ?_⟩
      · exact besideAll_subset_beside hlisted hp (hq.trans hqp)
      · refine (Disk.get?_prune_of_apart _ fun hpre => hname ?_).trans h.manifest
        exact entry_prefix_inj (hq.trans hpre) List.prefix_rfl

/-- Copying a listed skill. -/
theorem copytree [Inhabited C] {dest : PosixPath} (h : OnlyListed json R m m')
    (hstands : StandsAt m dest R) (hlinks : NoLinks m R) {s : String} (hs : isEntryName s = true)
    (hlisted : Listed json R m s)
    (fuel : Nat) (src : PosixPath) :
    OnlyListed json R m (Posix.copytree fuel src (dest.child s) m').2 := by
  have hslot := h.slot hstands hlinks hs
  have hexpands := hslot.writes.copytree fuel src (child_through dest s) m' (.refl _ m')
  refine ⟨h.spares.trans (hexpands.toSpares.mono (besideAll_subset_beside hlisted)), ?_⟩
  rw [← h.manifest]
  by_cases hname : s = manifestFile
  · -- the manifest is a file, and stays the one it is
    subst hname
    obtain ⟨content, hfile⟩ := hlisted.file
    rw [← h.manifest] at hfile
    obtain ⟨content', hkept⟩ := hexpands.kept.file hfile
    rw [hkept, copytree_slot_file hslot fuel src hkept]
  · exact hexpands.same _ fun hpre => hname (entry_prefix_inj hpre List.prefix_rfl)

end OnlyListed

variable [Inhabited C]

/-- **A call that raised** and was to write listed skills only has changed nothing else, where no
fault is met from the writing of the manifest on. -/
theorem provisionOpened_onlyListed {e : ProvisionError} (hstands : StandsAt m (P.destRoot ws) R)
    (hlinks : NoLinks m R) (hsource : P.source.ApartFrom R m)
    (hnodir : m.disk.get? (R ++ [manifestFile]) ≠ some .dir)
    (hcalm : CalmAhead (P.upToManifest ws user m).2)
    (hlisted : ∀ s ∈ P.written ws user m, Listed P.json R m s)
    (hraised : P.provisionOpened ws user m = (.error e, m')) : OnlyListed P.json R m m' := by
  have hplain : ∀ {m₁ s}, P.effective ws user m₁ s = true → isPlainName s = true := by
    intro m₁ s heffective
    simp only [SkillProvisioner.effective, Bool.and_eq_true] at heffective
    exact heffective.1.1
  refine provisionOpened_raised (I := OnlyListed P.json R m)
    (N := fun s => isPlainName s = true ∧ Listed P.json R m s) (Q := (· = R)) ?_ ?_ ?_ ?_ ?_ ?_
    ⟨.refl _ m, rfl⟩ hraised
  · exact fun _ _ h => ⟨Spares.ticks _ _ _ _ h.spares, h.manifest⟩
  · intro m₁ names m₂ h hread s hs
    refine ⟨readManifest_plain hread s hs, (Listed.congr h.manifest).mp ⟨names, ?_, hs⟩⟩
    refine readManifest_stored (hstands.mono h.sameOutside).leads (hlinks.mono h.spares.links) ?_
      hread
    rwa [h.manifest]
  · intro s hs m₁ h heffective src
    have hname := isEntryName_of_isPlainName (hplain heffective)
    refine h.copytree hstands hlinks hname (hlisted s (List.mem_filter.mpr ⟨hs, ?_⟩)) _ src
    rwa [SkillProvisioner.effective, hsource.hasSkill m₁ h.sameOutside.sameOff] at heffective
  · intro m₁ real h hreal
    cases (realpath_of_lookup (hstands.mono h.sameOutside).leads.found).symm.trans hreal
    rfl
  · rintro s ⟨hs, hlisted⟩ _ rfl m₁ revoked h
    exact h.revokeSkill hstands hlinks (isEntryName_of_isPlainName hs) hlisted revoked
  · intro names h
    refine returns_mapError.mpr ((writeFile_slot_returns
      (h.slot hstands hlinks isEntryName_manifestFile) hcalm _).mpr ?_)
    rwa [h.manifest]

/-- **What is remembered.** What was listed and is still there is listed after the call, and so is
what the call made; where it returns, what was listed and was not provisioned is gone. -/
theorem provisionOpened_remembers (hstands : StandsAt m (P.destRoot ws) R)
    (hlinks : NoLinks m R) (hsource : P.source.ApartFrom R m)
    (hthrough : SkillsDir P ws R m ∧ Admits P ws user R m ∨
      (∀ s ∈ P.written ws user m, Listed P.json R m s) ∧ CalmAhead (P.upToManifest ws user m).2)
    {answer : Except ProvisionError ProvisionResult}
    (hcall : P.provisionOpened ws user m = (answer, m')) :
    (∀ s, m'.disk.get? (R ++ [s]) = some .dir →
        Listed P.json R m s ∨ m.disk.get? (R ++ [s]) ≠ some .dir → Listed P.json R m' s) ∧
      ∀ result, answer = .ok result → ∀ s, s ∉ result.provisioned → Listed P.json R m s →
        m.disk.get? (R ++ [s]) = some .dir → m'.disk.get? (R ++ [s]) = none := by
  by_cases hdir : m.disk.get? (R ++ [manifestFile]) = some .dir
  · -- the manifest cannot be read, and nothing happens
    have hunread : (readManifest P.json (P.destRoot ws) m).1.toOption = none :=
      readManifest_dir hstands.leads hdir
    cases hread : readManifest P.json (P.destRoot ws) m with
    | mk names m₁ =>
      rw [hread] at hunread
      have hsame : SameDisk m m₁ := readManifest_same.of_eq ⟨rfl, rfl⟩ hread
      cases names with
      | ok names => cases hunread
      | error e =>
        cases (bind_of_error hread).symm.trans hcall
        refine ⟨fun s hs hbefore => ?_, fun result hok => by cases hok⟩
        rw [hsame.1] at hs
        refine (Listed.congr (by rw [hsame.1])).mpr (hbefore.resolve_right fun hne => hne hs)
  cases answer with
  | ok result =>
    obtain ⟨hlisted, hothers⟩ :=
      provisionOpened_tracks hstands.leads hlinks hsource hdir hcall
    refine ⟨fun s hs hbefore => ?_, fun result' hok s hout hin hthere => ?_⟩
    · by_contra hunlisted
      have hout : s ∉ result.provisioned := fun hin => hunlisted (hlisted s hin)
      have hthere := (hothers s hout).2 hs
      have hgone := (hothers s hout).1 (hbefore.resolve_right fun hne => hne hthere) hthere
      rw [hs] at hgone
      cases hgone
    · cases hok
      exact (hothers s hout).1 hin hthere
  | error e =>
    have honly : OnlyListed P.json R m m' := by
      rcases hthrough with ⟨hskills, hadmits⟩ | ⟨hwritten, hcalm⟩
      · obtain ⟨_, -, -, result, m₁, hok⟩ := (admits_iff hskills).mp hadmits
        cases hok.symm.trans hcall
      · exact provisionOpened_onlyListed hstands hlinks hsource hdir hcalm hwritten hcall
    refine ⟨fun s hs hbefore => ?_, fun result hok => by cases hok⟩
    rw [Listed.congr honly.manifest]
    by_contra hunlisted
    refine hbefore.resolve_left hunlisted ?_
    have hoff : R ++ [s] ∈ BesideAll R {s | Listed P.json R m s} :=
      mem_besideAll hunlisted List.prefix_rfl
    rw [← honly.spares.same _ hoff, hs]

end Raised

/-! ## Calls one after another -/

section Calls

variable [Inhabited C] {json : JsonFile C} {R : Location} {c : ProvisionCall C}
  {earlier : List (ProvisionCall C)}

/-- The directories in `R` that the calls of a run have made and not removed, the last call first. -/
def madeBy (R : Location) : List (ProvisionCall C) → Set String
  | [] => ∅
  | c :: earlier => {s | c.outcome.2.disk.get? (R ++ [s]) = some .dir ∧
      (s ∈ madeBy R earlier ∨ c.machine.disk.get? (R ++ [s]) ≠ some .dir)}

/-- A call after which nothing is forgotten: it is let through, or all it is to write is listed
already and no fault is met from the writing of the manifest on. Its path leads to `R` and not
through the entries there, and the source is elsewhere. -/
structure ProvisionCall.Tracked (c : ProvisionCall C) (json : JsonFile C) (R : Location) : Prop where
  json_eq : c.provisioner.json = json
  stands : StandsAt c.machine c.dest R
  source : c.provisioner.source.ApartFrom R c.opened
  through : SkillsDir c.provisioner c.workspace R c.opened ∧
      Admits c.provisioner c.workspace c.user R c.opened ∨
    (∀ s ∈ c.provisioner.written c.workspace c.user c.opened, Listed json R c.opened s) ∧
      CalmAhead (c.provisioner.upToManifest c.workspace c.user c.opened).2

/-- A call on a directory that is there. -/
theorem ProvisionCall.outcome_opened (hroot : Leads c.machine c.dest R)
    (hdepth : c.provisioner.depths.makedirs ≠ 0) :
    c.opened = c.machine.next ∧
      c.outcome = c.provisioner.provisionOpened c.workspace c.user c.opened := by
  obtain ⟨fuel, hfuel⟩ := Nat.exists_eq_succ_of_ne_zero hdepth
  have hmade : makedirs c.provisioner.depths.makedirs c.dest c.machine =
      (.ok (), c.machine.next) := by
    rw [hfuel]
    exact makedirs_leads_returns hroot fuel
  have hopened : c.opened = c.machine.next := by rw [ProvisionCall.opened, hmade]
  refine ⟨hopened, ?_⟩
  rw [ProvisionCall.outcome, provision_eq, hopened]
  exact bind_of_ok (mapError_eq_ok.mpr hmade)

/-- A call that cannot even enter `makedirs` does nothing. -/
theorem ProvisionCall.outcome_stuck (hdepth : c.provisioner.depths.makedirs = 0) :
    c.outcome = (.error (.fs .recursion), c.machine) := by
  have hraised : (makedirs c.provisioner.depths.makedirs c.dest).mapError ProvisionError.fs
      c.machine = (.error (.fs .recursion), c.machine) := by
    rw [hdepth]
    rfl
  rw [ProvisionCall.outcome, provision_eq]
  exact bind_of_error hraised

/-- **One call of a run.** -/
theorem ProvisionCall.Tracked.step (h : c.Tracked json R) (hlinks : NoLinks c.machine R) :
    (∀ s, c.outcome.2.disk.get? (R ++ [s]) = some .dir →
        Listed json R c.machine s ∨ c.machine.disk.get? (R ++ [s]) ≠ some .dir →
        Listed json R c.outcome.2 s) ∧
      ∀ result, c.outcome.1 = .ok result → ∀ s, s ∉ result.provisioned →
        Listed json R c.machine s → c.machine.disk.get? (R ++ [s]) = some .dir →
        c.outcome.2.disk.get? (R ++ [s]) = none := by
  obtain ⟨rfl, hstands, hsource, hthrough⟩ := h
  by_cases hdepth : c.provisioner.depths.makedirs = 0
  · rw [ProvisionCall.outcome_stuck hdepth]
    exact ⟨fun s hs hbefore => hbefore.resolve_right (absurd hs), nofun⟩
  obtain ⟨hopened, houtcome⟩ := ProvisionCall.outcome_opened hstands.leads hdepth
  rw [hopened] at hsource hthrough houtcome
  exact provisionOpened_remembers (m := c.machine.next)
    (hstands.mono (c.machine.next_sameDisk.sameOutside R)) hlinks hsource hthrough
    (Prod.ext (congrArg Prod.fst houtcome.symm) (congrArg Prod.snd houtcome.symm))

/-- The calls of a run on the skills directory `R`, the last one first. No link stands there at
first. Between two calls what is outside `R` may change. -/
inductive TrackedRun (json : JsonFile C) (R : Location) : List (ProvisionCall C) → Prop
  | first {c : ProvisionCall C} (hc : c.Tracked json R) (hlinks : NoLinks c.machine R) :
    TrackedRun json R [c]
  | next {c prev : ProvisionCall C} {earlier : List (ProvisionCall C)}
    (hrun : TrackedRun json R (prev :: earlier)) (hc : c.Tracked json R)
    (hothers : ∀ p, R <+: p → c.machine.disk.get? p = prev.outcome.2.disk.get? p) :
    TrackedRun json R (c :: prev :: earlier)

/-- What the last call of a run finds: no links, and a manifest that lists all that was made. -/
theorem TrackedRun.last (hrun : TrackedRun json R (c :: earlier)) :
    c.Tracked json R ∧ NoLinks c.machine R ∧
      ∀ s ∈ madeBy R earlier, c.machine.disk.get? (R ++ [s]) = some .dir ∧
        Listed json R c.machine s := by
  generalize hcalls : c :: earlier = calls at hrun
  induction hrun generalizing c earlier with
  | first hc hlinks =>
    cases hcalls
    exact ⟨hc, hlinks, nofun⟩
  | @next call prev rest hrun hc hothers ih =>
    obtain ⟨rfl, rfl⟩ := List.cons.inj hcalls
    obtain ⟨hprev, hlinks, hmade⟩ := ih rfl
    refine ⟨hc, fun p hp target => ?_, fun s hs => ?_⟩
    · rw [hothers p hp]
      exact ProvisionCall.noLinks_after hlinks p hp target
    · obtain ⟨hdir, hbefore⟩ := hs
      rw [Listed.congr (hothers _ (List.prefix_append R _)), hothers _ (List.prefix_append R _)]
      refine ⟨hdir, (hprev.step hlinks).1 s hdir (hbefore.imp_left fun hs => (hmade s hs).2)⟩

/-- **When the manifest forgets nothing.** After every call of such a run, returning or raising, it
lists every directory that the calls made and that was not removed; and a call that returns has
removed those of them that it does not provision. -/
theorem manifest_remembers (hrun : TrackedRun json R (c :: earlier)) :
    (∀ s ∈ madeBy R (c :: earlier), Listed json R c.outcome.2 s) ∧
      ∀ result, c.outcome.1 = .ok result → ∀ s ∈ madeBy R earlier, s ∉ result.provisioned →
        c.outcome.2.disk.get? (R ++ [s]) = none := by
  obtain ⟨hc, hlinks, hmade⟩ := hrun.last
  obtain ⟨hlisted, hremoved⟩ := hc.step hlinks
  refine ⟨fun s hs => ?_, fun result hok s hs hout => ?_⟩
  · obtain ⟨hdir, hbefore⟩ := hs
    exact hlisted s hdir (hbefore.imp_left fun hs => (hmade s hs).2)
  · exact hremoved result hok s hout (hmade s hs).2 (hmade s hs).1

end Calls

/-! ## A run -/

/-- A call that copies a skill, and one after it that is not to have it. -/
def lintCall : ProvisionCall (List Char) where
  provisioner := listProvisioner
  workspace := lintWorkspace
  user := skilledUser
  machine := { disk := manifestDisk "x" }

def lintCall' : ProvisionCall (List Char) :=
  { lintCall with
    workspace := { skilledWorkspace with allowedSkills := [] }
    machine := lintCall.outcome.2 }

theorem lintCall_tracked : lintCall.Tracked listFile skillsRoot := by
  obtain ⟨-, hdir, hopened⟩ := skillsDir_of lintWorkspace rfl (manifestDisk "x")
    (manifestDisk_noLinks "x") (by decide +kernel) (by decide +kernel)
  have hdest : lintCall.dest = ⟨true, skillsRoot⟩ := by with_unfolding_all rfl
  refine ⟨rfl, ?_, hdir.source, .inl ⟨hdir, ?_⟩⟩
  · rw [hdest]
    exact standsAt_located (Disk.isDirAt_iff.mp (by decide +kernel))
  · have hadmits := admits_lint
    rw [← hopened] at hadmits
    exact hadmits

theorem lintCall'_tracked : lintCall'.Tracked listFile skillsRoot := by
  have hdest : lintCall'.dest = ⟨true, skillsRoot⟩ := by with_unfolding_all rfl
  have hstands : StandsAt lintCall'.machine lintCall'.dest skillsRoot := by
    rw [hdest]
    exact standsAt_located (Disk.isDirAt_iff.mp (by decide +kernel))
  have hspares : Spares ∅ lintCall.machine lintCall.outcome.2 :=
    provision_keeps (spares_carries _) (fun q => Spares.cuts fun p hp => hp.elim) _ (.refl ∅ _)
  have hcalm : Calm lintCall.outcome.2 :=
    (provision_keeps calm_carries calm_cuts) lintCall.machine fun _ => rfl
  have hopened : Calm lintCall'.opened :=
    (calm_carries.makes.makedirs _ (Set.mem_univ _)) lintCall'.machine hcalm
  refine ⟨rfl, hstands, openSource_apart fun p target hlink => ?_,
    .inr ⟨nofun, (upToManifest_calm _ hopened).ahead⟩⟩
  have hsame : SameDisk lintCall'.machine lintCall'.opened :=
    makedirs_leads hstands.leads _
  rw [hsame.1] at hlink
  exact manifestDisk_noLinks "x" p target (hspares.links p target hlink)

/-- The skill is listed after the first call, and gone after the second. -/
theorem manifest_remembers_lint : Listed listFile skillsRoot lintCall.outcome.2 "lint" ∧
    lintCall'.outcome.2.disk.get? (skillsRoot ++ ["lint"]) = none := by
  have hfirst : TrackedRun listFile skillsRoot [lintCall] :=
    .first lintCall_tracked fun p _ => manifestDisk_noLinks "x" p
  have hmade : "lint" ∈ madeBy skillsRoot [lintCall] := by
    refine ⟨Disk.isDirAt_iff.mp (by decide +kernel), .inr fun hdir => ?_⟩
    exact absurd (Disk.isDirAt_iff.mpr hdir) (by decide +kernel)
  have hok : lintCall'.outcome.1 = .ok { revoked := ["lint"] } :=
    eq_ok_of_toOption (by decide +kernel)
  refine ⟨(manifest_remembers hfirst).1 "lint" hmade, ?_⟩
  exact (manifest_remembers (hfirst.next lintCall'_tracked fun _ _ => rfl)).2 _ hok "lint" hmade
    List.not_mem_nil

/-- A call whose second skill cannot be copied, since the user has a file of its name, and one after
it that is to have no skill. -/
def stoppedCall : ProvisionCall (List Char) :=
  { callOn [(skillsRoot ++ ["lint"], .file "mine".toList)] with
    workspace := { skilledWorkspace with allowedSkills := ["abtest", "lint"] } }

def stoppedCall' : ProvisionCall (List Char) :=
  { stoppedCall with
    workspace := { skilledWorkspace with allowedSkills := [] }
    machine := stoppedCall.outcome.2 }

/-- **A skill that is forgotten**: the first call raises once it has copied `abtest`, which no
manifest then lists; the second one returns, and leaves it there. -/
theorem manifest_forgets : stoppedCall.outcome.1.toOption = none ∧
    "abtest" ∈ madeBy skillsRoot [stoppedCall] ∧
    ¬ Listed textFile skillsRoot stoppedCall.outcome.2 "abtest" ∧
    stoppedCall'.outcome.1.toOption = some {} ∧
    stoppedCall'.outcome.2.disk.isDirAt (skillsRoot ++ ["abtest"]) = true := by
  have hnone : (stoppedCall.outcome.2.disk.get? (skillsRoot ++ [manifestFile])).isNone = true := by
    decide +kernel
  refine ⟨by decide +kernel, ⟨Disk.isDirAt_iff.mp (by decide +kernel), .inr fun hdir => ?_⟩,
    fun hlisted => ?_, by decide +kernel, by decide +kernel⟩
  · exact absurd (Disk.isDirAt_iff.mpr hdir) (by decide +kernel)
  · obtain ⟨content, hfile⟩ := hlisted.file
    rw [hfile] at hnone
    cases hnone

end ClawEngine.Skills
