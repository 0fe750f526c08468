import ClawEngine.Laws.StoppedCalls
import ClawEngine.Posix.Arrivals
import ClawEngine.Posix.Inside

/-!
# Provisioning stays in the skills directory

A call copies, overwrites and removes below the directory its path leads to, and nowhere else, as
long as no link below that directory leads out of it: links may stand there under the names of
skills, of their files or of the manifest, and may run in loops. The manifest may hold anything, the
source may be any, and the call may raise at any operation.
-/

set_option autoImplicit false

namespace ClawEngine.Skills

open ClawEngine.Core ClawEngine.Core.Act ClawEngine.Posix ClawEngine.Context ClawEngine.Identity

variable {C : Type}

/-! ## Removing -/

section Revoking

variable {m₀ m : Machine C} {dest : PosixPath} {R : Location}

/-- Outside `R` nothing changed, and what is there was there: the removals of a call. -/
structure Removing (R : Location) (m₀ m : Machine C) : Prop where
  spares : Spares (Outside R) m₀ m
  shrinks : Shrinks m₀ m

theorem Removing.refl (R : Location) (m : Machine C) : Removing R m m := ⟨.refl _ m, .refl m⟩

/-- Removing at or below a place below `R`. -/
theorem Removing.cuts {T : Location} (hT : R <+: T ∧ T ≠ R) : Cuts (Removing R m₀) T where
  tick m n h := ⟨Spares.ticks _ _ m n h.spares, (Shrinks.cuts m₀ T).tick m n h.shrinks⟩
  prune m q h hq := by
    refine ⟨h.spares.prune fun p hp hqp => hp ?_, (Shrinks.cuts m₀ T).prune m q h.shrinks hq⟩
    have hTp := hq.trans hqp
    refine ⟨hT.1.trans hTp, ?_⟩
    rintro rfl
    exact hT.2 (hTp.eq_of_length (Nat.le_antisymm hTp.length_le hT.1.length_le))

/-- **One step of the removal loop.** What `realpath` says may be a place by its text alone; the
directory that is removed is where that text leads. -/
theorem revokeSkill_inside {depth : Nat} {s : String} (hroot : Leads m₀ dest R)
    (hin : KeepsIn m₀.disk R) (revoked : List String) :
    Keeps (Removing R m₀) (revokeSkill depth dest R revoked s) := by
  refine ((keeps_readE _).mapError _).bind_of (P := Undotted) ?_ fun T hT => ?_
  · intro m T m' hm hok
    have hreal : realpath m (dest.descend [s]) = .ok T :=
      (readE_eq_ok.mp (mapError_eq_ok.mp hok)).1
    exact realpath_undotted hroot hm.spares.workdir hreal
  split
  · exact keeps_pure _
  next hbelow =>
  refine (keeps_read _).bind fun isDir => ?_
  split
  · refine Keeps.bind (Keeps.mapError _ (rmtree_keeps fun m q hm hfound _ => ?_))
      fun _ => keeps_pure _
    obtain ⟨hcommon, hne⟩ : commonPath R T = R ∧ T ≠ R := by
      simpa only [ne_eq, decide_not, Bool.or_eq_true, Bool.not_eq_true', decide_eq_false_iff_not,
        decide_eq_true_eq, not_or, not_not] using hbelow
    have hdir : m.disk.get? R = some .dir :=
      (hm.spares.same R fun hR => hR.2 rfl).trans hroot.dir
    exact Removing.cuts ((hin _ hm.spares.linksLeft).below hdir hT
      (hcommon ▸ commonPath_prefix R T) hne hfound)
  · exact keeps_pure _

theorem revokeSkills_inside (depth : Nat) (hroot : Leads m₀ dest R) (hin : KeepsIn m₀.disk R)
    (skills revoked : List String) :
    Keeps (Removing R m₀) (revokeSkills depth dest R skills revoked) :=
  revokeSkills_keeps_each skills revoked fun _ _ m revoked =>
    revokeSkill_inside hroot hin revoked m

end Revoking

/-! ## Writing the manifest -/

section Calls

variable [Inhabited C] {P : SkillProvisioner C} {ws : ResolvedWorkspace} {user : User}
  {m m' : Machine C} {R : Location}

/-- The manifest is written below `R`, or not at all where the path no longer leads there. -/
theorem writeManifest_inside {json : JsonFile C} {dest : PosixPath} (hroot : Leads m dest R)
    (hin : KeepsIn m.disk R) (hm : Removing R m m') (names : Finset String) :
    Spares (Outside R) m (writeManifest json dest names m').2 := by
  rw [writeManifest, mapError_left]
  by_cases hstill : Leads m' dest R
  · have hwrites := Safe.writes hstill isEntryName_manifestFile
      ((hin.mono hm.spares.linksLeft).safe hstill isEntryName_manifestFile)
    have hexpands := hwrites.toFills.writeFile (child_through dest manifestFile)
      (json.dump (manifestOf (names.sort (· ≤ ·)))) m' (.refl _ m')
    exact hm.spares.trans hexpands.toSpares
  · have hnowhere : Fills (SameDisk m') {dest.child manifestFile} fun _ => False := by
      refine ⟨SameDisk.ticks m', fun m₁ p q hsame hp hopens => hstill ?_, nofun⟩
      rw [Set.mem_singleton_iff.mp hp] at hopens
      have hlook : ∀ e, lookup m₁ true (dest.child manifestFile) ≠ .error e := by
        intro e he
        rcases hopens with hmissing | ⟨hfound, -⟩
        · cases he.symm.trans hmissing
        · cases he.symm.trans hfound
      obtain ⟨r, hr⟩ := lookup_head hroot.nonempty hlook
      have hr' : lookup m' true dest = .found r := by
        rw [← hr, lookup, lookup, hsame.1, hsame.2]
      obtain rfl : R = r := by
        have hbefore := lookup_ways hm.shrinks.ways hm.shrinks.workdir.symm
          (fun content hfile => ⟨content, hm.shrinks.entries r _ hfile⟩) hr'
        cases hroot.found.symm.trans hbefore
        rfl
      exact ⟨(hm.spares.same R fun hR => hR.2 rfl).trans hroot.dir, hr'⟩
    have hsame := hnowhere.writeFile (Set.mem_singleton _)
      (json.dump (manifestOf (names.sort (· ≤ ·)))) m' ⟨rfl, rfl⟩
    exact hm.spares.trans (.of_disk hsame.1 hsame.2)

/-! ## A call -/

/-- **A call whose directory is made** changes nothing outside it. -/
theorem provisionOpened_inside (hroot : Leads m (P.destRoot ws) R) (hin : KeepsIn m.disk R) :
    Spares (Outside R) m (P.provisionOpened ws user m).2 := by
  have hcopy : ∀ s ∈ ws.allowedSkills, ∀ m₁, Expands (Outside R) m m₁ →
      P.effective ws user m₁ s = true → ∀ src, Expands (Outside R) m
        (copytree P.depths.copytree src ((P.destRoot ws).child s) m₁).2 := by
    intro s _ m₁ hm₁ heffective src
    simp only [SkillProvisioner.effective, Bool.and_eq_true] at heffective
    have hname := isEntryName_of_isPlainName heffective.1.1
    exact (Safe.writes hroot hname (hin.safe hroot hname)).copytree P.depths.copytree src
      (child_through _ s) m₁ hm₁
  have hticks : Ticks (Expands (Outside R) m) := fun _ _ h => h.trans (.of_disk rfl rfl)
  refine bind_ends_at ((readManifest_keeps hticks _ _ m (.refl _ m)).toSpares)
    fun prev m₁ hread _ => ?_
  have hm₁ := (readManifest_keeps hticks P.json (P.destRoot ws)).of_eq (.refl _ m) hread
  refine bind_ends_at ((provisionSkills_keeps_each _ hcopy m₁ hm₁).toSpares)
    fun copied m₂ hcopied _ => ?_
  have hm₂ := (provisionSkills_keeps_each _ hcopy).of_eq hm₁ hcopied
  refine bind_ends_at (by rw [mapError_left]; exact hm₂.toSpares) fun real m₃ hreal _ => ?_
  obtain ⟨hsaid, rfl⟩ := readE_eq_ok.mp (mapError_eq_ok.mp hreal)
  -- the copies leave the path where it led
  have hroot₂ := hm₂.leads hroot
  cases (realpath_of_lookup hroot₂.found).symm.trans hsaid
  have hremoves := revokeSkills_inside P.depths.rmtree hroot₂ (hin.mono hm₂.linksLeft)
  refine bind_ends_at (hm₂.toSpares.trans (hremoves _ _ m₂ (.refl R m₂)).spares)
    fun revoked m₃ hrevoked _ => ?_
  have hm₃ := (hremoves _ _).of_eq (.refl R m₂) hrevoked
  refine bind_ends_at ?_ fun _ _ _ hleft => hleft
  exact hm₂.toSpares.trans (writeManifest_inside hroot₂ (hin.mono hm₂.linksLeft) hm₃ _)

/-- **A call** changes nothing outside its directory once that is made. -/
theorem ProvisionCall.inside {c : ProvisionCall C} (hroot : Leads c.opened c.dest R)
    (hin : KeepsIn c.opened.disk R) : Spares (Outside R) c.opened c.outcome.2 := by
  rw [ProvisionCall.outcome, provision_eq]
  refine bind_ends_at (by rw [mapError_left]; exact .refl _ _) fun _ m hmade _ => ?_
  obtain rfl : c.opened = m := congrArg Prod.snd (mapError_eq_ok.mp hmade)
  exact provisionOpened_inside hroot hin

end Calls

/-! ## Calls and others in turn -/

section Runs

variable [Inhabited C] {R : Location} {m m' : Machine C}

/-- What happens to a skills directory: calls that may return or raise, of any provisioner, for any
user, and in between anything that others do in the directory, as long as they leave no link in it
that leads out. -/
inductive SkillsRun (R : Location) (m : Machine C) : Machine C → Prop
  | start : SkillsRun R m m
  | call {c : ProvisionCall C} (hrun : SkillsRun R m c.machine)
    (hroot : Leads c.opened c.dest R) : SkillsRun R m c.outcome.2
  | others {m' m'' : Machine C} (hrun : SkillsRun R m m') (hsame : SameOutside R m' m'')
    (hin : KeepsIn m''.disk R) : SkillsRun R m m''

/-- **Provisioning is confined.** Whatever skills, links and manifests are in the directory as long
as no link in it leads out: the calls change nothing outside it but for the directories they make on
the way to it, and none of them leaves a link that leads out. -/
theorem provision_confined (hrun : SkillsRun R m m') (hin : KeepsIn m.disk R) :
    (∀ p ∈ Outside R, m'.disk.get? p = m.disk.get? p ∨
      m.disk.get? p = none ∧ m'.disk.get? p = some .dir) ∧ KeepsIn m'.disk R := by
  induction hrun with
  | start => exact ⟨fun _ _ => .inl rfl, hin⟩
  | @call c _ hroot ih =>
    obtain ⟨hbefore, hkeeps⟩ := ih
    have hopened : KeepsIn c.opened.disk R :=
      hkeeps.mono (makedirs_expands c.machine _ c.dest).linksLeft
    have hcall := ProvisionCall.inside hroot hopened
    refine ⟨fun p hp => ?_, hopened.mono hcall.linksLeft⟩
    rw [hcall.same p hp]
    rcases makedirs_onlyDirs c.machine _ c.dest p with hsame | ⟨hnone, hdir⟩
    · rw [show c.opened.disk.get? p = _ from hsame]
      exact hbefore p hp
    · refine (hbefore p hp).elim (fun hsame => ?_) fun hmade => ?_
      · exact .inr ⟨hsame.symm.trans hnone, hdir⟩
      · cases hnone.symm.trans hmade.2
  | others _ hsame hin' ih =>
    refine ⟨fun p hp => ?_, hin'⟩
    rw [hsame.2 p hp]
    exact ih.1 p hp

end Runs

/-! ## A directory with a link in it -/

/-- What a link is put on has no other links. -/
theorem link_of_put {d : Disk C} (hd : ∀ p target, d.get? p ≠ some (.link target)) {q p : Location}
    {text target : String} (h : (d.put q (.link text)).get? p = some (.link target)) :
    p = q ∧ target = text := by
  by_cases hcan : d.CanPut q
  · rw [Disk.get?_put hcan] at h
    split at h
    next heq =>
      cases h
      exact ⟨heq, rfl⟩
    next => exact absurd h (hd p target)
  · rw [Disk.put, dif_neg hcan] at h
    exact absurd h (hd p target)

/-- Nothing changes outside the directory of a call that finds a link in it. -/
theorem provision_confined_linked :
    (∀ p ∈ Outside skillsRoot, linkedCall.outcome.2.disk.get? p = linkedCall.machine.disk.get? p ∨
      linkedCall.machine.disk.get? p = none ∧ linkedCall.outcome.2.disk.get? p = some .dir) ∧
      KeepsIn linkedCall.outcome.2.disk skillsRoot := by
  have hdest : linkedCall.dest = ⟨true, skillsRoot⟩ := by with_unfolding_all rfl
  have hroot : Leads linkedCall.machine linkedCall.dest skillsRoot := by
    rw [hdest]
    exact (standsAt_located (Disk.isDirAt_iff.mp (by decide +kernel))).leads
  have hsame : SameDisk linkedCall.machine linkedCall.opened :=
    makedirs_leads hroot _
  have hopened : Leads linkedCall.opened linkedCall.dest skillsRoot :=
    Expands.leads (.of_disk hsame.1 hsame.2 : Expands ∅ _ _) hroot
  have hpoints : PointsIn linkedCall.machine.disk skillsRoot := by
    intro cur name target hcur hlink
    have hplain : ∀ p target, (callOn [(["src", "lint", "a"], .file "1".toList),
        (["src", "lint", "b"], .file "2".toList), (skillsRoot ++ ["lint"], .dir)]).machine.disk.get?
          p ≠ some (.link target) := callOn_noLinks (by decide)
    obtain ⟨-, rfl⟩ := link_of_put hplain (show (Disk.put _ (skillsRoot ++ ["lint", "a"])
      (.link "b")).get? (cur ++ [name]) = some (.link target) from hlink)
    -- the target is another name in the same directory
    have hnames : PosixPath.ofString "b" = ⟨false, ["b"]⟩ := by decide
    rw [hnames]
    exact .below hcur (by decide)
  exact provision_confined (.call .start hopened) (hpoints.keepsIn hroot.dir)

end ClawEngine.Skills
