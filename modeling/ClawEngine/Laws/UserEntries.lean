import ClawEngine.Laws.StoppedCalls

/-!
# What calls leave of the user's entries

The skills directory is not the provisioner's alone: the directories a user made there never enter
the manifest and are never touched, the class says. A skill of the same name is copied into such a
directory all the same (`dirs_exist_ok`), the manifest then names it, and a later call removes it.
`user_entries_kept` says when the promise is kept, over all calls of a run, returning or raising.
-/

set_option autoImplicit false

namespace ClawEngine.Skills

open ClawEngine.Core ClawEngine.Core.Act ClawEngine.Posix ClawEngine.Context ClawEngine.Identity

variable {C : Type}

/-! ## What is left alone -/

/-- What is at or below the entries of `R` with names in `U`. -/
def AtEntries (R : Location) (U : Set String) : Set Location := {p | ∃ n ∈ U, R ++ [n] <+: p}

/-- And everything that is not below `R`. -/
def UserZone (R : Location) (U : Set String) : Set Location := Outside R ∪ AtEntries R U

/-- A manifest with this content names none of `U`. -/
def JsonFile.Omits (json : JsonFile C) (U : Set String) (content : C) : Prop :=
  ∀ names, json.managed content = .ok names → ∀ n ∈ U, n ∉ names

/-- The manifest in `R` names none of `U`. -/
def Unlisted (json : JsonFile C) (R : Location) (U : Set String) (m : Machine C) : Prop :=
  ∀ content, m.disk.get? (R ++ [manifestFile]) = some (.file content) → json.Omits U content

/-- From `m` to `m'` the user's entries are as they were, and the manifest names none of them; nor
does what an interrupted write leaves. -/
structure Untouched (json : JsonFile C) (R : Location) (U : Set String) (m m' : Machine C) :
    Prop where
  spares : Spares (UserZone R U) m m'
  unlisted : Unlisted json R U m'
  faults : ∀ n fault, m'.faults n = some fault → json.Omits U fault.left

section Zones

variable {json : JsonFile C} {R : Location} {U : Set String} {m m' : Machine C} {s : String}

/-- Another entry is beside the zone. -/
theorem userZone_subset_beside (hs : s ∉ U) : UserZone R U ⊆ Beside (R ++ [s]) := by
  rintro p (hp | ⟨n, hn, hp⟩) hpre
  · exact hp (below_entry hpre)
  · exact hs (entry_prefix_inj hp hpre ▸ hn)

theorem manifest_notMem_userZone (hmanifest : manifestFile ∉ U) :
    R ++ [manifestFile] ∉ UserZone R U := fun hin =>
  userZone_subset_beside hmanifest hin List.prefix_rfl

theorem sameOutside_of_userZone (h : Spares (UserZone R U) m m') : SameOutside R m m' :=
  ⟨h.workdir, fun p hp => h.same p (.inl hp)⟩

namespace Untouched

theorem ticks (m : Machine C) : Ticks (Untouched json R U m) :=
  fun _ _ h => ⟨Spares.ticks _ _ _ _ h.spares, h.unlisted, h.faults⟩

/-- It does not matter what was counted. -/
theorem of_sameDisk {m'' : Machine C} (h : Untouched json R U m m') (hsame : SameDisk m' m'')
    (hfaults : ∀ n fault, m''.faults n = some fault → json.Omits U fault.left) :
    Untouched json R U m m'' := by
  refine ⟨h.spares.trans (.of_disk hsame.1 hsame.2), fun content hfile => ?_, hfaults⟩
  rw [hsame.1] at hfile
  exact h.unlisted content hfile

/-- Removing another entry leaves the user's alone. -/
theorem cuts (hs : s ∉ U) : Cuts (Untouched json R U m) (R ++ [s]) where
  tick := ticks m
  prune _ q h hq := by
    refine ⟨h.spares.prune fun p hp hqp => ?_, fun content hfile => ?_, h.faults⟩
    · exact userZone_subset_beside hs hp (hq.trans hqp)
    · exact h.unlisted content (Disk.get?_of_prune hfile)

/-- Another name is a slot, where no link was at first. -/
theorem slot {dest : PosixPath} (h : Untouched json R U m m') (hstands : StandsAt m dest R)
    (hname : isEntryName s = true) (hlinks : NoLinks m (R ++ [s])) : Slot m' dest R s :=
  ⟨(hstands.mono (sameOutside_of_userZone h.spares)).leads, hname, hlinks.mono h.spares.links⟩

theorem faults_writes : Writes (fun m : Machine C => ∀ n fault, m.faults n = some fault →
    json.Omits U fault.left) Set.univ fun _ => True where
  tick _ _ h := h
  dir _ _ _ h _ _ := h
  lands _ _ _ _ _ _ := trivial
  file _ _ _ h _ := h
  head _ _ _ _ _ := Set.mem_univ _
  child _ _ _ _ := Set.mem_univ _

variable [Inhabited C]

/-- **Copying another skill leaves the user's entries alone**, wherever it stops. -/
theorem copytree {dest : PosixPath} (h : Untouched json R U m m') (hs : s ∉ U)
    (hslot : Slot m' dest R s) (fuel : Nat) (src : PosixPath) :
    Untouched json R U m (Posix.copytree fuel src (dest.child s) m').2 := by
  have hexpands := hslot.writes.copytree fuel src (child_through dest s) m' (.refl _ m')
  refine ⟨h.spares.trans (hexpands.toSpares.mono (userZone_subset_beside hs)), ?_, ?_⟩
  · intro content hfile
    by_cases hname : s = manifestFile
    · subst hname
      exact h.unlisted content (copytree_slot_file hslot fuel src hfile)
    · refine h.unlisted content ?_
      rwa [← hexpands.same _ fun hpre => hname (entry_prefix_inj hpre List.prefix_rfl)]
  · exact (faults_writes.copytree fuel src (Set.mem_univ _)) m' h.faults

/-- **Writing a manifest that names none of them leaves them alone.** -/
theorem writeManifest {dest : PosixPath} {names : Finset String} (hmanifest : manifestFile ∉ U)
    (hempty : json.Omits U default) (hstands : StandsAt m dest R)
    (hlinks : NoLinks m (R ++ [manifestFile])) (hplain : ∀ s ∈ names, isPlainName s = true)
    (hnames : ∀ s ∈ names, s ∉ U) :
    Keeps (Untouched json R U m) (Skills.writeManifest json dest names) := by
  refine Keeps.mapError _ (writeFile_good (T := R ++ [manifestFile]) (G := json.Omits U) (ticks m)
    ?_ ?_ hempty (fun _ _ _ h => h.faults _ _) ?_)
  · rintro m' q h (hmissing | ⟨hfound, -⟩)
    · exact (h.slot hstands isEntryName_manifestFile hlinks).lookup_self (.inr hmissing)
    · exact (h.slot hstands isEntryName_manifestFile hlinks).lookup_self (.inl hfound)
  · intro m' content h hcontent
    refine ⟨h.spares.put (manifest_notMem_userZone hmanifest) rfl, fun content' hfile => ?_,
      h.faults⟩
    by_cases hcan : m'.disk.CanPut (R ++ [manifestFile])
    · have hget := (Disk.get?_put hcan (.file content) (R ++ [manifestFile])).symm.trans hfile
      rw [if_pos rfl] at hget
      cases hget
      exact hcontent
    · refine h.unlisted content' ?_
      rwa [Disk.put, dif_neg hcan] at hfile
  · intro names' hread n hn
    cases (json.managed_manifest hplain).symm.trans hread
    exact fun hin => hnames n hin hn

end Untouched

end Zones

/-! ## Names that are taken -/

section Taken

variable {m : Machine C} {dest : PosixPath} {R : Location} {s : String} {e : Entry C}

/-- Where something stands that is no directory, none is made. -/
theorem makedirs_taken (hroot : Leads m dest R) (hname : isEntryName s = true)
    (he : m.disk.get? (R ++ [s]) = some e) (hdir : isdir m (dest.child s) = false) (fuel : Nat) :
    ∃ raised m', makedirs fuel (dest.child s) m = (.error raised, m') ∧ SameDisk m m' := by
  cases fuel with
  | zero => exact ⟨.recursion, m, rfl, rfl, rfl⟩
  | succ fuel =>
    have hhead : (dest.child s).head = dest := by
      simp only [PosixPath.head, PosixPath.child, List.dropLast_concat]
    have hthere : exists? m dest = true := by rw [exists?, hroot.found]
    have hlacks : lacksHead m (dest.child s) = false := by
      simp only [lacksHead, hhead, hthere, Bool.not_true, Bool.and_false]
    have hfound := hroot.goesOn.lookup_child hname
    rw [if_neg (by rw [he]; exact Option.some_ne_none e)] at hfound
    obtain ⟨raised, hmk, -⟩ := mkdir_found hfound
    have hattempt : ((mkdir (dest.child s)).attempt : Fs C (Except OsError Unit)) m =
        (.ok (.error raised), m.next) := by rw [attempt, hmk]
    have hnodir : isdir m.next (dest.child s) = false := hdir
    refine ⟨.os raised, m.next, ?_, rfl, rfl⟩
    rw [makedirs, read_bind, hlacks, if_neg Bool.false_ne_true, mkdirExistOk, bind_of_ok hattempt]
    dsimp only
    rw [read_bind, hnodir, if_neg Bool.false_ne_true]
    rfl

/-- Nor is anything copied there. -/
theorem copytree_taken [Inhabited C] (hroot : Leads m dest R) (hname : isEntryName s = true)
    (he : m.disk.get? (R ++ [s]) = some e) (hdir : isdir m (dest.child s) = false) (fuel : Nat)
    (src : PosixPath) :
    ∃ raised m', copytree fuel src (dest.child s) m = (.error raised, m') ∧ SameDisk m m' := by
  cases fuel with
  | zero => exact ⟨.recursion, m, rfl, rfl, rfl⟩
  | succ fuel =>
    obtain ⟨raised, m', hmade, hsame⟩ := makedirs_taken hroot hname he hdir recursionLimit
    cases hscan : (scandir src).mapError FsError.os m with
    | mk answer m₁ =>
      have hm₁ : m₁ = m := ((keeps_readE _).mapError _ : Keeps (· = m) _).of_eq rfl hscan
      subst hm₁
      cases answer with
      | error raised => exact ⟨raised, m₁, bind_of_error hscan, rfl, rfl⟩
      | ok entries => exact ⟨raised, m', (bind_of_ok hscan).trans (bind_of_error hmade), hsame⟩

end Taken

/-! ## A call -/

/-- A call that keeps off the user's entries: its path leads to `R` and not through its entries, and
it comes to write no skill that is named like a directory of the user. What an interrupted write
leaves of a manifest names none of them. -/
structure ProvisionCall.KeepsOff [Inhabited C] (c : ProvisionCall C) (json : JsonFile C)
    (R : Location) (U : Set String) : Prop where
  json_eq : c.provisioner.json = json
  stands : StandsAt c.machine c.dest R
  writes : ∀ m, Spares (UserZone R U) c.machine m → ∀ s ∈ c.workspace.allowedSkills, s ∈ U →
    c.provisioner.effective c.workspace c.user m s = true → isdir m (c.dest.child s) = false
  faults : ∀ n fault, c.machine.faults n = some fault → json.Omits U fault.left

section Calls

variable [Inhabited C] {json : JsonFile C} {R : Location} {U : Set String} {c : ProvisionCall C}
  {earlier : List (ProvisionCall C)}

/-- A skill that a call comes to write is beside the user's entries, or cannot be copied. -/
theorem ProvisionCall.KeepsOff.copies (h : c.KeepsOff json R U) {m : Machine C}
    (hentries : ∀ n ∈ U, c.machine.disk.get? (R ++ [n]) ≠ none)
    (hm : Untouched json R U c.machine m) {s : String} (hs : s ∈ c.workspace.allowedSkills)
    (heffective : c.provisioner.effective c.workspace c.user m s = true) :
    isPlainName s = true ∧ (s ∈ U → ∀ fuel src, ∃ raised m',
      copytree fuel src (c.dest.child s) m = (.error raised, m') ∧ SameDisk m m') := by
  have hplain : isPlainName s = true := by
    simp only [SkillProvisioner.effective, Bool.and_eq_true] at heffective
    exact heffective.1.1
  refine ⟨hplain, fun hin fuel src => ?_⟩
  obtain ⟨e, he⟩ := Option.ne_none_iff_exists'.mp (hentries s hin)
  rw [← hm.spares.same _ (.inr ⟨s, hin, List.prefix_rfl⟩)] at he
  exact copytree_taken (h.stands.mono (sameOutside_of_userZone hm.spares)).leads
    (isEntryName_of_isPlainName hplain) he (h.writes m hm.spares s hs hin heffective) fuel src

/-- **A call that keeps off the user's entries leaves them alone**, whether it returns or raises. -/
theorem ProvisionCall.KeepsOff.untouched (h : c.KeepsOff json R U) (hmanifest : manifestFile ∉ U)
    (hempty : json.Omits U default)
    (hentries : ∀ n ∈ U, c.machine.disk.get? (R ++ [n]) ≠ none)
    (hlinks : ∀ s, s ∉ U → NoLinks c.machine (R ++ [s]))
    (hunlisted : Unlisted json R U c.machine) :
    Untouched json R U c.machine c.outcome.2 := by
  have hcopies := fun {m} hm {s} => h.copies (m := m) hentries hm (s := s)
  obtain ⟨rfl, hstands, -, hfaults⟩ := h
  have hslot : ∀ {m s}, Untouched c.provisioner.json R U c.machine m → s ∉ U →
      isPlainName s = true → Slot m c.dest R s := fun hm hs hplain =>
    hm.slot hstands (isEntryName_of_isPlainName hplain) (hlinks _ hs)
  have hopened : Keeps (Untouched c.provisioner.json R U c.machine)
      (c.provisioner.provisionOpened c.workspace c.user) := by
    refine provisionOpened_keeps_each (N := fun s => s ∉ U ∧ isPlainName s = true) (Q := (· = R))
      (Untouched.ticks _) ?_ ?_ ?_ ?_ ?_
    · intro m names m' hm hread s hs
      have hplain := readManifest_plain hread s hs
      refine ⟨fun hin => ?_, hplain⟩
      rcases readManifest_eq_ok hread with ⟨rfl, -⟩ | ⟨q, content, hfound, hfile, hnames⟩
      · exact absurd hs (Finset.notMem_empty s)
      · obtain rfl := (hm.slot hstands isEntryName_manifestFile (hlinks _ hmanifest)).lookup_self
          (.inl hfound)
        exact hm.unlisted content hfile names hnames s hin hs
    · intro s hs m hm heffective src
      obtain ⟨hplain, htaken⟩ := hcopies hm hs heffective
      by_cases hin : s ∈ U
      · obtain ⟨raised, m', hcopy, hsame⟩ := htaken hin c.provisioner.depths.copytree src
        have hfaults := (Untouched.faults_writes.copytree
          c.provisioner.depths.copytree src (Set.mem_univ (c.dest.child s))) m hm.faults
        show Untouched _ R U _ (copytree c.provisioner.depths.copytree src (c.dest.child s) m).2
        rw [hcopy] at hfaults ⊢
        exact hm.of_sameDisk hsame hfaults
      · exact hm.copytree hin (hslot hm hin hplain) _ src
    · intro m real hm hreal
      have hroot := (hstands.mono (sameOutside_of_userZone hm.spares)).leads
      cases (realpath_of_lookup hroot.found).symm.trans hreal
      rfl
    · rintro s ⟨hs, hplain⟩ _ rfl m revoked hm
      exact revokeSkill_keeps_slot (hslot hm hs hplain) (Untouched.cuts hs) hm revoked
    · intro names hnames
      refine Untouched.writeManifest hmanifest hempty hstands (hlinks _ hmanifest) ?_ ?_
      · intro s hs
        obtain ⟨hs, m, src, m', hm, heffective, -⟩ := hnames s hs
        exact (hcopies hm hs heffective).1
      · intro s hs hin
        obtain ⟨hs, m, src, m', hm, heffective, hcopied⟩ := hnames s hs
        obtain ⟨_, htaken⟩ := hcopies hm hs heffective
        obtain ⟨raised, _, hraised, -⟩ := htaken hin _ src
        cases hraised.symm.trans hcopied
  have hsame := makedirs_leads hstands.leads c.provisioner.depths.makedirs
  have hmade : Untouched c.provisioner.json R U c.machine
      (makedirs c.provisioner.depths.makedirs c.dest c.machine).2 :=
    Untouched.of_sameDisk ⟨.refl _ _, hunlisted, hfaults⟩ hsame
      (Untouched.faults_writes.toMakes.makedirs _ (Set.mem_univ _) _ hfaults)
  show Untouched _ R U c.machine (c.provisioner.provision c.workspace c.user c.machine).2
  rw [provision_eq]
  refine bind_ends_at ?_ fun _ m _ hm => hopened m hm
  rw [mapError_left]
  exact hmade

/-! ## Calls one after another -/

/-- The calls of a run on the skills directory `R`, in which the user has the entries `U`, the last
call first. Every call keeps off them. At first they are there, the manifest, if there is one, names
none of them, and no link stands in another entry. Between two calls what is outside `R` may
change. -/
inductive UserRun (json : JsonFile C) (R : Location) (U : Set String) :
    List (ProvisionCall C) → Prop
  | first {c : ProvisionCall C} (hc : c.KeepsOff json R U)
    (hentries : ∀ n ∈ U, c.machine.disk.get? (R ++ [n]) ≠ none)
    (hlinks : ∀ s, s ∉ U → NoLinks c.machine (R ++ [s]))
    (hunlisted : Unlisted json R U c.machine) : UserRun json R U [c]
  | next {c prev : ProvisionCall C} {earlier : List (ProvisionCall C)}
    (hrun : UserRun json R U (prev :: earlier)) (hc : c.KeepsOff json R U)
    (hothers : ∀ p, R <+: p → c.machine.disk.get? p = prev.outcome.2.disk.get? p) :
    UserRun json R U (c :: prev :: earlier)

/-- What every call of a run finds: the user's entries, no links beside them, and none of them in the
manifest. -/
theorem UserRun.untouched (hmanifest : manifestFile ∉ U) (hempty : json.Omits U default)
    (hrun : UserRun json R U (c :: earlier)) :
    (∀ n ∈ U, c.machine.disk.get? (R ++ [n]) ≠ none) ∧
      (∀ s, s ∉ U → NoLinks c.machine (R ++ [s])) ∧
      Untouched json R U c.machine c.outcome.2 := by
  generalize hcalls : c :: earlier = calls at hrun
  induction hrun generalizing c earlier with
  | first hc hentries hlinks hunlisted =>
    cases hcalls
    exact ⟨hentries, hlinks, hc.untouched hmanifest hempty hentries hlinks hunlisted⟩
  | @next call prev rest hrun hc hothers ih =>
    obtain ⟨rfl, rfl⟩ := List.cons.inj hcalls
    obtain ⟨hentries, hlinks, hprev⟩ := ih rfl
    have hentries' : ∀ n ∈ U, c.machine.disk.get? (R ++ [n]) ≠ none := by
      intro n hn
      rw [hothers _ (List.prefix_append R _), hprev.spares.same _ (.inr ⟨n, hn, List.prefix_rfl⟩)]
      exact hentries n hn
    have hlinks' : ∀ s, s ∉ U → NoLinks c.machine (R ++ [s]) := by
      intro s hs p hp target
      rw [hothers p ((List.prefix_append R [s]).trans hp)]
      exact (hlinks s hs).mono hprev.spares.links p hp target
    refine ⟨hentries', hlinks', hc.untouched hmanifest hempty hentries' hlinks' ?_⟩
    intro content hfile
    rw [hothers _ (List.prefix_append R _)] at hfile
    exact hprev.unlisted content hfile

/-- **When calls leave the user's entries alone.** After every call of such a run, returning or
raising, all that is at or below an entry of the user is as it was before the first call, and the
manifest names none of these entries. -/
theorem user_entries_kept (hmanifest : manifestFile ∉ U) (hempty : json.Omits U default)
    (hrun : UserRun json R U (c :: earlier)) :
    (∀ first, (c :: earlier).getLast? = some first → ∀ p ∈ AtEntries R U,
        c.outcome.2.disk.get? p = first.machine.disk.get? p) ∧
      Unlisted json R U c.outcome.2 := by
  refine ⟨fun first hfirst p hp => ?_, (hrun.untouched hmanifest hempty).2.2.unlisted⟩
  generalize hcalls : c :: earlier = calls at hrun hfirst
  induction hrun generalizing c earlier with
  | first hc hentries hlinks hunlisted =>
    cases hcalls
    cases hfirst
    exact (hc.untouched hmanifest hempty hentries hlinks hunlisted).spares.same p (.inr hp)
  | @next call prev rest hrun hc hothers ih =>
    obtain ⟨rfl, rfl⟩ := List.cons.inj hcalls
    rw [List.getLast?_cons_cons] at hfirst
    have hstep := ((hrun.next hc hothers).untouched hmanifest hempty).2.2.spares.same p (.inr hp)
    have hbelow : R <+: p := by
      obtain ⟨n, -, hn⟩ := hp
      exact (List.prefix_append R [n]).trans hn
    rw [hstep, hothers p hbelow]
    exact ih rfl hfirst

end Calls

/-! ## A run -/

/-- The user's notes in the skills directory. -/
def notesEntries : List (Location × Entry (List Char)) :=
  [(skillsRoot ++ ["notes"], .dir), (skillsRoot ++ ["notes", "todo"], .file "mine".toList)]

/-- Two calls on a directory with the user's notes in it; the second one removes the skills that the
first one copied. -/
def notesCall : ProvisionCall (List Char) := callOn notesEntries

def notesCall' : ProvisionCall (List Char) :=
  { notesCall with
    workspace := { skilledWorkspace with allowedSkills := [] }
    machine := notesCall.outcome.2 }

theorem textFile_omits_empty (U : Set String) : textFile.Omits U [] := by
  intro names hread n _
  have hnone : textFile.managed [] = .ok ∅ := rfl
  cases hnone.symm.trans hread
  exact Finset.notMem_empty n

theorem notes_run : UserRun textFile skillsRoot {"notes"} [notesCall', notesCall] := by
  have hdest : notesCall.dest = ⟨true, skillsRoot⟩ := by with_unfolding_all rfl
  have hkeeps : ∀ c : ProvisionCall (List Char), c.provisioner = openProvisioner →
      c.dest = ⟨true, skillsRoot⟩ → c.machine.disk.isDirAt skillsRoot = true →
      "notes" ∉ c.workspace.allowedSkills → (∀ n, c.machine.faults n = none) →
      c.KeepsOff textFile skillsRoot {"notes"} := by
    intro c hprovisioner hdest hdir hallowed hcalm
    refine ⟨by rw [hprovisioner]; rfl, ?_, fun m _ s hs hin => ?_, fun n fault hfault => ?_⟩
    · rw [hdest]
      exact standsAt_located (Disk.isDirAt_iff.mp hdir)
    · rw [Set.mem_singleton_iff.mp hin] at hs
      exact absurd hs hallowed
    · rw [hcalm] at hfault
      cases hfault
  have hcalm : ∀ n, notesCall'.machine.faults n = none :=
    (provision_keeps calm_carries calm_cuts) notesCall.machine fun _ => rfl
  have hlinks := callOn_noLinks (show ∀ e ∈ notesEntries, e.2.isLink = false by decide)
  have hnone : notesCall.machine.disk.get? (skillsRoot ++ [manifestFile]) = none :=
    Option.isNone_iff_eq_none.mp (by decide +kernel)
  have hthere : (notesCall.machine.disk.get? (skillsRoot ++ ["notes"])).isSome = true := by
    decide +kernel
  refine .next (.first (hkeeps _ rfl hdest (by decide +kernel) (by decide) fun _ => rfl) ?_
    (fun s _ p _ => hlinks p) fun content hfile => ?_)
    (hkeeps _ rfl hdest (by decide +kernel) (by decide) hcalm) fun _ _ => rfl
  · intro n hn
    rw [Set.mem_singleton_iff.mp hn]
    exact Option.isSome_iff_ne_none.mp hthere
  · rw [hnone] at hfile
    cases hfile

/-- The second call leaves the notes as they were. -/
theorem user_entries_kept_notes :
    notesCall'.outcome.2.disk.get? (skillsRoot ++ ["notes", "todo"]) =
      notesCall.machine.disk.get? (skillsRoot ++ ["notes", "todo"]) :=
  (user_entries_kept (by decide) (textFile_omits_empty _) notes_run).1 notesCall rfl _
    ⟨"notes", rfl, List.prefix_append (skillsRoot ++ ["notes"]) ["todo"]⟩

/-- A call in whose skills directory the user has a `lint` of their own, which is also the name of a
skill, and a call after it without that skill. -/
def namesakeCall : ProvisionCall (List Char) :=
  { callOn [(skillsRoot ++ ["lint"], .dir),
      (skillsRoot ++ ["lint", "SKILL.md"], .file "mine".toList)] with
    workspace := lintWorkspace }

def namesakeCall' : ProvisionCall (List Char) :=
  { namesakeCall with
    workspace := { skilledWorkspace with allowedSkills := [] }
    machine := namesakeCall.outcome.2 }

/-- **A user's directory is overwritten and removed** that has the name of a skill: the first call
writes over the user's file, which the provisioner had not made, the manifest then names the
directory, and the second call removes it. -/
theorem user_entry_taken :
    fileText (namesakeCall.machine.disk.get? (skillsRoot ++ ["lint", "SKILL.md"])) =
        some "mine".toList ∧
      fileText (namesakeCall.outcome.2.disk.get? (skillsRoot ++ ["lint", "SKILL.md"])) =
        some "# skill".toList ∧
      (fileText (namesakeCall.outcome.2.disk.get? (skillsRoot ++ [manifestFile]))).map
        (scanNames none ∘ List.drop manifestHead.length) = some ["lint"] ∧
      (namesakeCall'.outcome.2.disk.get? (skillsRoot ++ ["lint"])).isNone = true := by
  refine ⟨?_, ?_, ?_, ?_⟩
  all_goals decide +kernel

end ClawEngine.Skills
