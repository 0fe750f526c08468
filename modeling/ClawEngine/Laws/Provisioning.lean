import ClawEngine.Posix.Carries
import ClawEngine.Posix.Frame
import ClawEngine.Skills.Provisioner

/-!
# Calls of provision, one after another

A call that returned has written the skills it was to write, removed the ones it no longer manages,
and left a manifest that names what is there. Each loop keeps to its own entries of the skills
directory, so the calls of a run tie the disk, the manifest and the permissions together: `Settled`
is what one call leaves and the next one finds.
-/

set_option autoImplicit false

namespace ClawEngine.Skills

open ClawEngine.Core ClawEngine.Core.Act ClawEngine.Posix ClawEngine.Context ClawEngine.Identity

variable {C : Type}

/-! ## What every call keeps -/

section Keeping

variable {J : Machine C → Prop} {I L : Location → Prop} {G : C → Prop} {S : Set PosixPath}

theorem readManifest_keeps (hticks : Ticks J) (json : JsonFile C) (destRoot : PosixPath) :
    Keeps J (readManifest json destRoot) := by
  refine (hticks.readFile _).attempt.bind fun outcome => ?_
  split
  · exact keeps_pure _
  · exact keeps_raise _
  · split
    · split
      · exact keeps_pure _
      · exact keeps_raise _
    · exact (keeps_readE _).mapError _

/-- The removals keep what survives removing anything. -/
theorem revokeSkills_keeps {depth : Nat} (hcuts : ∀ q, Cuts J q) (destRoot : PosixPath)
    (destRootReal : Location) (skills revoked : List String) :
    Keeps J (revokeSkills depth destRoot destRootReal skills revoked) := by
  induction skills generalizing revoked with
  | nil => exact keeps_pure _
  | cons skill skills ih =>
    refine Keeps.bind ?_ fun revoked => ih revoked
    refine ((keeps_readE _).mapError _).bind fun target => ?_
    split
    · exact keeps_pure _
    refine (keeps_read _).bind fun isDir => ?_
    split
    · refine Keeps.bind (Keeps.mapError _ (rmtree_keeps fun _ q _ _ _ => ?_)) fun _ => keeps_pure _
      exact hcuts q
    · exact keeps_pure _

/-- The copying of the skills, where the source's directories are sources of the rules. -/
theorem provisionSkills_keeps [Inhabited C] {P : SkillProvisioner C} {ws : ResolvedWorkspace}
    {user : User} (h : Carries J S I L G)
    (hsource : ∀ m' name src, P.source.skillDir m' name = .ok src → src ∈ S)
    (destRoot : PosixPath) (skills : List String) (result : ProvisionResult) :
    Keeps J (provisionSkills P ws user destRoot skills result) := by
  induction skills generalizing result with
  | nil => exact keeps_pure _
  | cons skill skills ih =>
    refine Keeps.bind ?_ fun result => ih result
    unfold provisionSkill
    split
    · exact keeps_pure _
    split
    · exact keeps_pure _
    refine (keeps_read _).bind fun has => ?_
    split
    · refine ((keeps_readE _).mapError _).bind_of (P := (· ∈ S)) ?_ fun src hsrc => ?_
      · intro m' src m'' _ hok
        exact hsource m' skill src (readE_eq_ok.mp (mapError_eq_ok.mp hok)).1
      · exact ((h.copytree _ hsrc _).mapError _).bind fun _ => keeps_pure _
    · refine (keeps_read _).bind fun isDir => ?_
      split <;> exact keeps_pure _

end Keeping

/-! ## The copy loop -/

/-- The names a call writes: valid, allowed to the user, and in the source. -/
def SkillProvisioner.effective (P : SkillProvisioner C) (ws : ResolvedWorkspace) (user : User)
    (m : Machine C) (skill : String) : Bool :=
  isPlainName skill && P.identity.canUseSkill user ws.workspaceId skill && P.source.hasSkill m skill

section Copying

variable [Inhabited C] {P : SkillProvisioner C} {ws : ResolvedWorkspace} {user : User}
  {dest : PosixPath} {R : Location} {m₀ m m' : Machine C} {result result' : ProvisionResult}

/-- A skill that is not written is noted under another heading, and nothing else happens. -/
theorem provisionSkill_skips {skill : String} (hskip : P.effective ws user m skill = false)
    (hok : provisionSkill P ws user dest result skill m = (.ok result', m')) :
    result'.provisioned = result.provisioned ∧ m' = m := by
  unfold provisionSkill at hok
  split at hok
  · cases hok
    exact ⟨rfl, rfl⟩
  next hplain =>
  split at hok
  · cases hok
    exact ⟨rfl, rfl⟩
  next hallowed =>
    rw [Bool.not_eq_true, Bool.not_eq_false'] at hplain hallowed
    simp only [SkillProvisioner.effective, hplain, hallowed, Bool.true_and] at hskip
    rw [read_bind, hskip, if_neg Bool.false_ne_true, read_bind] at hok
    split at hok
    · cases hok
      exact ⟨rfl, rfl⟩
    · cases hok
      exact ⟨rfl, rfl⟩

/-- A skill that is written is there, and nothing beside it has changed. -/
theorem provisionSkill_writes {skill : String} (hslot : Slot m dest R skill)
    (heffective : P.effective ws user m skill = true)
    (hok : provisionSkill P ws user dest result skill m = (.ok result', m')) :
    result'.provisioned = result.provisioned ++ [skill] ∧ Grows (R ++ [skill]) m m' ∧
      m'.disk.get? (R ++ [skill]) = some .dir := by
  simp only [SkillProvisioner.effective, Bool.and_eq_true] at heffective
  obtain ⟨⟨hplain, hallowed⟩, hhas⟩ := heffective
  unfold provisionSkill at hok
  rw [hplain, hallowed, Bool.not_true, if_neg Bool.false_ne_true, if_neg Bool.false_ne_true] at hok
  rw [read_bind, hhas, if_pos rfl] at hok
  obtain ⟨src, m₂, hsrc, hok⟩ := bind_eq_ok.mp hok
  obtain ⟨-, rfl⟩ := readE_eq_ok.mp (mapError_eq_ok.mp hsrc)
  obtain ⟨_, m₃, hcopy, hok⟩ := bind_eq_ok.mp hok
  cases hok
  obtain ⟨hgrows, hdir⟩ := copytree_slot hslot (mapError_eq_ok.mp hcopy)
  exact ⟨rfl, .of_expands hgrows, hdir⟩

/-- What the copy loop leaves, when it returns: every skill that was to be written is there, only
their entries have changed, and no directory is gone. -/
structure Copied (R : Location) (S : Set String) (written : List String)
    (result result' : ProvisionResult) (m m' : Machine C) : Prop where
  provisioned : result'.provisioned = result.provisioned ++ written
  within : Within R S m m'
  kept : ∀ p, m.disk.get? p = some .dir → m'.disk.get? p = some .dir
  there : ∀ s ∈ written, m'.disk.get? (R ++ [s]) = some .dir

/-- **The copy loop.** -/
theorem provisionSkills_copied {S : Set String}
    (hsource : ∀ m, SameOutside R m₀ m → ∀ s, P.source.hasSkill m s = P.source.hasSkill m₀ s)
    (skills : List String) (hS : ∀ s ∈ skills, P.effective ws user m₀ s = true → s ∈ S)
    (hslots : ∀ s ∈ S, Slot m dest R s) (hsame : SameOutside R m₀ m)
    (hok : provisionSkills P ws user dest skills result m = (.ok result', m')) :
    Copied R S (skills.filter (P.effective ws user m₀)) result result' m m' := by
  induction skills generalizing result m with
  | nil =>
    cases hok
    exact ⟨(List.append_nil _).symm, .refl R S _, fun _ h => h, nofun⟩
  | cons skill skills ih =>
    obtain ⟨result₁, m₁, hskill, hrest⟩ := bind_eq_ok.mp hok
    have hhas : P.effective ws user m skill = P.effective ws user m₀ skill := by
      rw [SkillProvisioner.effective, SkillProvisioner.effective, hsource m hsame]
    have hS' := fun s hs => hS s (List.mem_cons_of_mem skill hs)
    cases heffective : P.effective ws user m₀ skill with
    | false =>
      obtain ⟨hresult, rfl⟩ := provisionSkill_skips (hhas.trans heffective) hskill
      obtain ⟨hprov, hwithin, hkept, hthere⟩ := ih hS' hslots hsame hrest
      rw [List.filter_cons_of_neg (by rw [heffective]; exact Bool.false_ne_true)]
      exact ⟨by rw [hprov, hresult], hwithin, hkept, hthere⟩
    | true =>
      have hin := hS skill List.mem_cons_self heffective
      obtain ⟨hresult, hgrows, hdir⟩ :=
        provisionSkill_writes (hslots skill hin) (hhas.trans heffective) hskill
      have hstep : Within R S m m₁ := .of_confined hin hgrows.toConfined
      obtain ⟨hprov, hwithin, hkept, hthere⟩ := ih hS'
        (fun s hs => (hslots s hs).mono (hslots skill hin).noLinks hgrows)
        (hsame.trans hstep.sameOutside) hrest
      rw [List.filter_cons_of_pos heffective]
      refine ⟨?_, hstep.trans hwithin, fun p hp => hkept p (hgrows.dirs p hp), ?_⟩
      · rw [hprov, hresult, List.append_assoc, List.singleton_append]
      · intro s hs
        rcases List.mem_cons.mp hs with rfl | hs
        · exact hkept _ hdir
        · exact hthere s hs

end Copying

/-! ## The removal loop -/

section Revoking

variable {depth : Nat} {dest : PosixPath} {R : Location} {m m' : Machine C}
  {revoked revoked' : List String}

/-- Where a directory stands at the name, the code is to remove it. -/
theorem revokeSkill_dir {s : String} (hroot : Leads m dest R)
    (hdir : m.disk.get? (R ++ [s]) = some .dir) :
    revokeSkill depth dest R revoked s m =
      ((rmtree depth ⟨true, R ++ [s]⟩).mapError .fs >>= fun _ =>
        (pure (revoked ++ [s]) : Provision C (List String))) m := by
  have hfound : lookup m true (dest.child s) = .found (R ++ [s]) :=
    lookup_located_below hroot (List.cons_ne_nil s []) hdir rfl
  have hreal : (Act.readE (realpath · (dest.child s)) : Fs C Location).mapError
      ProvisionError.fs m = (.ok (R ++ [s]), m) :=
    mapError_eq_ok.mpr (readE_eq_ok.mpr ⟨realpath_of_lookup hfound, rfl⟩)
  refine (bind_of_ok hreal).trans ?_
  have hinside : ¬ ((commonPath R (R ++ [s]) ≠ R || R ++ [s] = R : Bool) = true) := by
    have hne : R ++ [s] ≠ R := fun heq => List.cons_ne_nil s [] (List.append_right_eq_self.mp heq)
    simp only [commonPath_append, ne_eq, not_true_eq_false, decide_false, hne, Bool.or_self,
      Bool.false_eq_true, not_false_eq_true]
  have hisdir : isdir m ⟨true, R ++ [s]⟩ = true := by
    rw [isdir, lookup_located hdir rfl]
    exact Disk.isDirAt_iff.mpr hdir
  rw [if_neg hinside, read_bind, hisdir, if_pos rfl]

/-- It is removed, and reported. -/
theorem revokeSkill_removes {s : String} (hroot : Leads m dest R)
    (hdir : m.disk.get? (R ++ [s]) = some .dir)
    (hok : revokeSkill depth dest R revoked s m = (.ok revoked', m')) :
    revoked' = revoked ++ [s] ∧ Confined (R ++ [s]) m m' ∧
      ∀ p, R ++ [s] <+: p → m'.disk.get? p = none := by
  rw [revokeSkill_dir hroot hdir] at hok
  obtain ⟨_, m₃, hremove, hok⟩ := bind_eq_ok.mp hok
  cases hok
  obtain ⟨hconfined, hgone⟩ := rmtree_located hdir (List.concat_ne_nil s R)
    (mapError_eq_ok.mp hremove)
  exact ⟨rfl, hconfined, hgone⟩

/-- **The removal loop**, over distinct names of directories: each is removed and reported. -/
theorem revokeSkills_removed (skills : List String) (hnodup : skills.Nodup)
    (hstands : StandsAt m dest R) (hdirs : ∀ s ∈ skills, m.disk.get? (R ++ [s]) = some .dir)
    (hok : revokeSkills depth dest R skills revoked m = (.ok revoked', m')) :
    revoked' = revoked ++ skills ∧ Within R {s | s ∈ skills} m m' ∧
      ∀ s ∈ skills, ∀ p, R ++ [s] <+: p → m'.disk.get? p = none := by
  induction skills generalizing revoked m with
  | nil =>
    cases hok
    exact ⟨(List.append_nil _).symm, .refl R _ _, nofun⟩
  | cons s skills ih =>
    obtain ⟨revoked₁, m₁, hskill, hrest⟩ := bind_eq_ok.mp hok
    obtain ⟨hnew, hnodup⟩ := List.nodup_cons.mp hnodup
    obtain ⟨hrevoked, hconfined, hgone⟩ :=
      revokeSkill_removes hstands.leads (hdirs s List.mem_cons_self) hskill
    have hstep : Within R {x | x ∈ s :: skills} m m₁ := .of_confined List.mem_cons_self hconfined
    have hdirs₁ : ∀ x ∈ skills, m₁.disk.get? (R ++ [x]) = some .dir := by
      intro x hx
      have hne : x ∉ ({s} : Set String) := fun heq => hnew (heq ▸ hx)
      have honly : Within R {s} m m₁ := .of_confined rfl hconfined
      rw [honly.same_at hne (List.prefix_refl _)]
      exact hdirs x (List.mem_cons_of_mem s hx)
    obtain ⟨hrevoked', hwithin, hgone'⟩ :=
      ih hnodup (hstands.mono hconfined.sameOutside) hdirs₁ hrest
    refine ⟨?_, hstep.trans (hwithin.mono fun x hx => List.mem_cons_of_mem s hx), ?_⟩
    · rw [hrevoked', hrevoked, List.append_assoc, List.singleton_append]
    · intro x hx p hp
      rcases List.mem_cons.mp hx with rfl | hx
      · rw [hwithin.same_at hnew hp]
        exact hgone p hp
      · exact hgone' x hx p hp

end Revoking

/-! ## The manifest -/

section Manifest

variable {json : JsonFile C} {dest : PosixPath} {R : Location} {m m' : Machine C}
  {managed : Finset String}

theorem mem_managedNames {entries : List Json} {s : String} :
    s ∈ managedNames entries ↔ Json.str s ∈ entries ∧ isPlainName s = true := by
  rw [managedNames, List.mem_toFinset, List.mem_filterMap]
  constructor
  · rintro ⟨entry, hentry, hname⟩
    cases entry with
    | str name =>
      dsimp only at hname
      split at hname
      next hplain =>
        cases hname
        exact ⟨hentry, hplain⟩
      · cases hname
    | _ => cases hname
  · rintro ⟨hentry, hplain⟩
    exact ⟨.str s, hentry, if_pos hplain⟩

theorem managedNames_sort (h : ∀ s ∈ managed, isPlainName s = true) :
    managedNames ((managed.sort (· ≤ ·)).map .str) = managed := by
  ext s
  rw [mem_managedNames, List.mem_map]
  constructor
  · rintro ⟨⟨s', hs', heq⟩, -⟩
    cases heq
    exact (Finset.mem_sort _).mp hs'
  · exact fun hs => ⟨⟨s, (Finset.mem_sort _).mpr hs, rfl⟩, h s hs⟩

theorem readManaged_manifestOf (names : List String) :
    readManaged (manifestOf names) = .ok (managedNames (names.map .str)) := rfl

/-- Where the manifest names `managed`, or there is none and nothing is managed. -/
structure Manifest (json : JsonFile C) (R : Location) (managed : Finset String) (m : Machine C) :
    Prop where
  stored : m.disk.get? (R ++ [manifestFile]) =
      some (.file (json.dump (manifestOf (managed.sort (· ≤ ·))))) ∨
    managed = ∅ ∧ m.disk.get? (R ++ [manifestFile]) = none

theorem readManifest_same : Keeps (SameDisk m) (readManifest json dest) :=
  readManifest_keeps (SameDisk.ticks m) json dest

/-- A manifest that names `managed` is read as that, unless an operation meets a fault. -/
theorem readManifest_written (hroot : Leads m dest R)
    (hplain : ∀ s ∈ managed, isPlainName s = true)
    (hfile : m.disk.get? (R ++ [manifestFile]) =
      some (.file (json.dump (manifestOf (managed.sort (· ≤ ·)))))) :
    (∃ n fault, m.faults n = some fault ∧
        (readManifest json dest m).1 = .error (.fs (.os fault.error))) ∨
      (readManifest json dest m).1 = .ok managed := by
  have hfound : lookup m true (dest.child manifestFile) = .found (R ++ [manifestFile]) :=
    lookup_located_below hroot (List.cons_ne_nil _ []) hfile rfl
  have hload : json.load (json.dump (manifestOf (managed.sort (· ≤ ·)))) =
      .ok (manifestOf (managed.sort (· ≤ ·))) :=
    json.load_dump _ fun s hs => hplain s ((Finset.mem_sort _).mp hs)
  rcases readFile_found hfound hfile with ⟨n, fault, hfault, hread⟩ | hread
  · refine .inl ⟨n, fault, hfault, ?_⟩
    show (Act.bind _ _ m).1 = _
    simp only [Act.bind, Act.attempt, hread]
    rfl
  · refine .inr ?_
    show (Act.bind _ _ m).1 = _
    simp only [Act.bind, Act.attempt, hread, hload, Act.mapError, Act.readE,
      readManaged_manifestOf, managedNames_sort hplain]

/-- **Reading the manifest**, when it returns: what is managed. -/
theorem readManifest_returns (hslot : Slot m dest R manifestFile)
    (hplain : ∀ s ∈ managed, isPlainName s = true) (hmanifest : Manifest json R managed m)
    {read : Finset String} (hok : readManifest json dest m = (.ok read, m')) :
    read = managed ∧ SameDisk m m' := by
  have hsame : SameDisk m m' := by
    have hkept : SameDisk m (readManifest json dest m).2 := readManifest_same m ⟨rfl, rfl⟩
    rwa [hok] at hkept
  refine ⟨?_, hsame⟩
  rcases hmanifest.stored with hfile | ⟨rfl, hnone⟩
  · rcases readManifest_written hslot.leads hplain hfile with ⟨_, _, -, hread⟩ | hread
    · rw [hok] at hread
      cases hread
    · rw [hok] at hread
      exact Except.ok.inj hread
  · obtain ⟨outcome, m₁, hattempt, hrest⟩ := bind_eq_ok.mp hok
    obtain ⟨houtcome, -⟩ := Prod.mk.inj hattempt
    have hmissing : ∀ q, lookup m true (dest.child manifestFile) ≠ .found q := by
      intro q hq
      obtain rfl := hslot.lookup_self (.inl hq)
      have hspelled := hslot.lookup true slot_names
      rw [show lookup m true (dest.descend [manifestFile]) = .found (R ++ [manifestFile]) from hq]
        at hspelled
      obtain ⟨e, he⟩ := hspelled.of_found
      rw [hnone] at he
      cases he
    split at hrest
    · cases hrest
      rfl
    · cases hrest
    next content => exact absurd (Except.ok.inj houtcome) (readFile_missing hmissing content)

/-- **Writing the manifest.** -/
theorem writeManifest_written [Inhabited C] (hslot : Slot m dest R manifestFile)
    (hok : writeManifest json dest managed m = (.ok (), m')) :
    Grows (R ++ [manifestFile]) m m' ∧ m'.disk.get? (R ++ [manifestFile]) =
      some (.file (json.dump (manifestOf (managed.sort (· ≤ ·))))) := by
  obtain ⟨hexpands, hfile⟩ := writeFile_slot hslot (mapError_eq_ok.mp hok)
  exact ⟨.of_expands hexpands, hfile⟩

end Manifest

/-! ## One call -/

/-- A call of `provision` that returned: on what, and with what. -/
structure Round (C : Type) [Inhabited C] where
  provisioner : SkillProvisioner C
  workspace : ResolvedWorkspace
  user : User
  machine : Machine C
  result : ProvisionResult
  after : Machine C
  returns : provisioner.provision workspace user machine = (.ok result, after)

/-- The skills directory `R` as the calls of a run leave it, where the names `A` may be asked for
and `managed` are there: the manifest names them, they are directories, the other names of `A` are
not there, and no link stands at a name of `A` or at the manifest. -/
structure Settled (json : JsonFile C) (R : Location) (A : Set String) (managed : Finset String)
    (m : Machine C) : Prop where
  asked : ∀ s ∈ managed, s ∈ A ∧ isPlainName s = true
  manifest : Manifest json R managed m
  dirs : ∀ s ∈ managed, m.disk.get? (R ++ [s]) = some .dir
  others : ∀ s ∈ A, s ∉ managed → m.disk.get? (R ++ [s]) = none
  noLinks : ∀ s, s ∈ A ∨ s = manifestFile → NoLinks m (R ++ [s])

/-- An empty directory is settled. -/
theorem Settled.of_empty {json : JsonFile C} {R : Location} {A : Set String}
    {m : Machine C} (h : ∀ p, R <+: p → p ≠ R → m.disk.get? p = none) :
    Settled json R A ∅ m := by
  have hbelow : ∀ s p, R ++ [s] <+: p → m.disk.get? p = none := by
    intro s p hp
    exact h p (below_entry hp).1 (below_entry hp).2
  refine ⟨nofun, ⟨.inr ⟨rfl, hbelow _ _ (List.prefix_refl _)⟩⟩, nofun,
    fun s _ _ => hbelow s _ (List.prefix_refl _), fun s _ p hp target ht => ?_⟩
  rw [hbelow s p hp] at ht
  cases ht

/-- What others do between two calls keeps a directory settled. -/
theorem Settled.of_same {json : JsonFile C} {R : Location} {A : Set String}
    {managed : Finset String} {m m' : Machine C}
    (h : Settled json R A managed m)
    (hsame : ∀ s, s ∈ A ∨ s = manifestFile → ∀ p, R ++ [s] <+: p →
      m'.disk.get? p = m.disk.get? p) : Settled json R A managed m' where
  asked := h.asked
  manifest := ⟨by
    rw [hsame manifestFile (.inr rfl) _ (List.prefix_refl _)]
    exact h.manifest.stored⟩
  dirs s hs := by
    rw [hsame s (.inl (h.asked s hs).1) _ (List.prefix_refl _)]
    exact h.dirs s hs
  others s hs hnot := by
    rw [hsame s (.inl hs) _ (List.prefix_refl _)]
    exact h.others s hs hnot
  noLinks s hs p hp target := by
    rw [hsame s hs p hp]
    exact h.noLinks s hs p hp target

section Call

variable [Inhabited C] {json : JsonFile C} {R : Location} {A : Set String}
  {managed : Finset String} {m m' : Machine C} {r : Round C}

/-- `dest_root`. -/
def Round.dest (r : Round C) : PosixPath := r.provisioner.destRoot r.workspace

/-- The machine once `dest_root` is made. -/
def Round.opened (r : Round C) : Machine C :=
  (makedirs r.provisioner.depths.makedirs r.dest r.machine).2

/-- What is the same over all calls of a run: the encoding of the manifest, that only names of `A`
are asked for, and that the source answers the same all through one call. -/
structure Round.Proper (r : Round C) (json : JsonFile C) (A : Set String) (R : Location) :
    Prop where
  json_eq : r.provisioner.json = json
  asks : ∀ s ∈ r.workspace.allowedSkills, s ∈ A
  source : ∀ m, SameOutside R r.opened m → ∀ s,
    r.provisioner.source.hasSkill m s = r.provisioner.source.hasSkill r.machine s

/-- What a call does to a settled directory. -/
structure Round.Settles (r : Round C) (json : JsonFile C) (R : Location) (A : Set String)
    (managed : Finset String) : Prop where
  provisioned : r.result.provisioned = r.workspace.allowedSkills.filter
    (r.provisioner.effective r.workspace r.user r.machine)
  revoked : r.result.revoked = (managed \ r.result.provisioned.toFinset).sort (· ≤ ·)
  settled : Settled json R A r.result.provisioned.toFinset r.after
  written : r.after.disk.get? (R ++ [manifestFile]) =
    some (.file (json.dump (manifestOf (r.result.provisioned.toFinset.sort (· ≤ ·)))))
  within : Within R (A ∪ {manifestFile}) r.opened r.after

/-- **One call on a settled directory.** -/
theorem Round.settles (hproper : r.Proper json A R) (hmanifest : manifestFile ∉ A)
    (hstands : StandsAt r.opened r.dest R) (hsettled : Settled json R A managed r.opened) :
    r.Settles json R A managed := by
  obtain ⟨_, m₀, hmade, hrest⟩ := bind_eq_ok.mp r.returns
  have hm₀ : m₀ = r.opened := by
    rw [Round.opened, Round.dest, mapError_eq_ok.mp hmade]
  subst hm₀
  have hslot : ∀ s ∈ A, isPlainName s = true → Slot r.opened r.dest R s := fun s hs hplain =>
    ⟨hstands.leads, isEntryName_of_isPlainName hplain, hsettled.noLinks s (.inl hs)⟩
  have hslotFile : Slot r.opened r.dest R manifestFile :=
    ⟨hstands.leads, by decide, hsettled.noLinks _ (.inr rfl)⟩
  -- the manifest is read
  obtain ⟨prev, m₁, hread, hrest⟩ := bind_eq_ok.mp hrest
  obtain ⟨hprev, hsame⟩ := readManifest_returns hslotFile (fun s hs => (hsettled.asked s hs).2)
    (hproper.json_eq ▸ hsettled.manifest) hread
  subst hprev
  have hsame₁ : Within R ∅ r.opened m₁ := .of_sameDisk hsame
  -- the skills are copied
  obtain ⟨result, m₂, hcopy, hrest⟩ := bind_eq_ok.mp hrest
  let effective := r.provisioner.effective r.workspace r.user r.machine
  let written := r.workspace.allowedSkills.filter effective
  have heffective : r.provisioner.effective r.workspace r.user r.opened = effective := by
    funext s
    simp only [effective, SkillProvisioner.effective, hproper.source _ (.refl R _) s]
  have hwritten : ∀ s ∈ written, s ∈ A ∧ isPlainName s = true := by
    intro s hs
    obtain ⟨hasked, heff⟩ := List.mem_filter.mp hs
    simp only [effective, SkillProvisioner.effective, Bool.and_eq_true] at heff
    exact ⟨hproper.asks s hasked, heff.1.1⟩
  have hsource : ∀ m, SameOutside R r.opened m → ∀ s,
      r.provisioner.source.hasSkill m s = r.provisioner.source.hasSkill r.opened s :=
    fun m hm s => (hproper.source m hm s).trans (hproper.source _ (.refl R _) s).symm
  have hcopied := provisionSkills_copied (S := {s | s ∈ written}) hsource r.workspace.allowedSkills
    (fun s hs heff => List.mem_filter.mpr ⟨hs, by rwa [heffective] at heff⟩)
    (fun s hs => hsame₁.slot hstands (hslot s (hwritten s hs).1 (hwritten s hs).2))
    (hsame.sameOutside R) hcopy
  rw [heffective] at hcopied
  obtain ⟨hprov, hwithin₂, hkept, hthere⟩ := hcopied
  -- the ones no longer managed are removed
  obtain ⟨real, m₃, hreal, hrest⟩ := bind_eq_ok.mp hrest
  obtain ⟨hanswer, rfl⟩ := readE_eq_ok.mp (mapError_eq_ok.mp hreal)
  have hto₂ : Within R {s | s ∈ written} r.opened m₂ :=
    (hsame₁.mono (Set.empty_subset _)).trans hwithin₂
  have hstands₂ : StandsAt m₂ r.dest R := hstands.mono hto₂.sameOutside
  have hroot : lookup m₂ true r.dest = .found R := hstands₂.2 m₂ (.refl R m₂)
  have hrootReal : realpath m₂ r.dest = .ok R := realpath_of_lookup hroot
  cases hrootReal.symm.trans hanswer
  have hprov : result.provisioned = written := hprov
  rw [hprov] at hrest
  obtain ⟨revoked, m₃, hrevoke, hrest⟩ := bind_eq_ok.mp hrest
  let gone := (prev \ written.toFinset).sort (· ≤ ·)
  have hgone : ∀ s, s ∈ gone ↔ s ∈ prev ∧ s ∉ written := fun s => by
    rw [Finset.mem_sort, Finset.mem_sdiff, List.mem_toFinset]
  have hdirs₂ : ∀ s ∈ prev, m₂.disk.get? (R ++ [s]) = some .dir := fun s hs => hkept _ (by
    rw [hsame₁.same_at (Set.notMem_empty s) (List.prefix_refl _)]
    exact hsettled.dirs s hs)
  obtain ⟨hrevoked, hwithin₃, hremoved⟩ := revokeSkills_removed gone (Finset.sort_nodup _ _)
    hstands₂ (fun s hs => hdirs₂ s ((hgone s).mp hs).1) hrevoke
  -- the manifest is written
  obtain ⟨_, m₄, hwrite, hrest⟩ := bind_eq_ok.mp hrest
  have hto₃ : Within R (A ∪ {manifestFile}) r.opened m₃ :=
    (hto₂.mono fun s hs => .inl (hwritten s hs).1).trans
      (hwithin₃.mono fun s hs => .inl (hsettled.asked s ((hgone s).mp hs).1).1)
  obtain ⟨hgrows, hfile⟩ := writeManifest_written (hto₃.slot hstands hslotFile) hwrite
  have honly : Within R {manifestFile} m₃ m₄ := .of_confined rfl hgrows.toConfined
  have hto₄ : Within R (A ∪ {manifestFile}) r.opened m₄ :=
    hto₃.trans (honly.mono Set.subset_union_right)
  obtain ⟨hresult, rfl⟩ := Prod.mk.inj hrest
  have hresult := Except.ok.inj hresult
  have hprovisioned : r.result.provisioned = written := by rw [← hresult, ← hprov]
  have hnew : ∀ s ∈ A, s ∉ ({manifestFile} : Set String) := by
    rintro s hs rfl
    exact hmanifest hs
  rw [hproper.json_eq] at hfile
  refine ⟨hprovisioned, ?_, ?_, hprovisioned ▸ hfile, hto₄⟩
  · rw [hprovisioned, ← hresult]
    exact hrevoked
  rw [hprovisioned]
  refine ⟨fun s hs => hwritten s (List.mem_toFinset.mp hs), ⟨.inl hfile⟩, ?_, ?_,
    fun s hs => hto₄.noLinks (hsettled.noLinks s hs)⟩
  · intro s hs
    have hs := List.mem_toFinset.mp hs
    rw [honly.same_at (hnew s (hwritten s hs).1) (List.prefix_refl _),
      hwithin₃.same_at (fun hg => ((hgone s).mp hg).2 hs) (List.prefix_refl _)]
    exact hthere s hs
  · intro s hs hnot
    have hnot : s ∉ written := fun h => hnot (List.mem_toFinset.mpr h)
    rw [honly.same_at (hnew s hs) (List.prefix_refl _)]
    by_cases hmanaged : s ∈ prev
    · exact hremoved s ((hgone s).mpr ⟨hmanaged, hnot⟩) _ (List.prefix_refl _)
    · rw [hwithin₃.same_at (fun hg => hmanaged ((hgone s).mp hg).1) (List.prefix_refl _),
        hto₂.same_at hnot (List.prefix_refl _)]
      exact hsettled.others s hs hmanaged

end Call

/-! ## Calls one after another -/

/-- The calls of a run on the skills directory `R`, the last one first. It starts empty. Between
two calls the path still leads to `R`, and others keep off the names `A` and the manifest. -/
inductive Rounds [Inhabited C] (json : JsonFile C) (R : Location) (A : Set String) :
    List (Round C) → Prop
  | first {r : Round C} (hproper : r.Proper json A R) (hstands : StandsAt r.opened r.dest R)
    (hempty : ∀ p, R <+: p → p ≠ R → r.opened.disk.get? p = none) : Rounds json R A [r]
  | next {r prev : Round C} {earlier : List (Round C)} (hrun : Rounds json R A (prev :: earlier))
    (hproper : r.Proper json A R) (hstands : StandsAt r.machine r.dest R)
    (hothers : ∀ s, s ∈ A ∨ s = manifestFile → ∀ p, R ++ [s] <+: p →
      r.machine.disk.get? p = prev.after.disk.get? p) : Rounds json R A (r :: prev :: earlier)

section Run

variable [Inhabited C] {json : JsonFile C} {R : Location} {A : Set String} {r : Round C}
  {earlier : List (Round C)}

/-- What the call before the last one provisioned. -/
def lastProvisioned : List (Round C) → List String
  | [] => []
  | r :: _ => r.result.provisioned

/-- `dest_root` is made without touching what is at or below its entries. -/
theorem opened_same (hstands : StandsAt r.machine r.dest R) (p : Location) :
    r.opened.disk.get? p = r.machine.disk.get? p := by
  rw [Round.opened, (makedirs_leads hstands.leads _).1]

theorem opened_stands (hstands : StandsAt r.machine r.dest R) : StandsAt r.opened r.dest R :=
  hstands.mono ((makedirs_leads hstands.leads _).sameOutside R)

/-- What is not there once `dest_root` is made was not there before. -/
theorem opened_none {p : Location} (h : r.opened.disk.get? p = none) :
    r.machine.disk.get? p = none := by
  by_contra hne
  obtain ⟨e, he⟩ := Option.ne_none_iff_exists'.mp hne
  have hkept := makedirs_extends r.provisioner.depths.makedirs r.dest r.machine (fun _ _ he => he)
    p e he
  exact absurd (h.symm.trans hkept) nofun

/-- **The last call of a run** finds a settled directory, with what the call before provisioned. -/
theorem Rounds.settles (h : Rounds json R A (r :: earlier)) (hmanifest : manifestFile ∉ A) :
    StandsAt r.opened r.dest R ∧
      r.Settles json R A (lastProvisioned earlier).toFinset ∧
      ∀ s, s ∉ A → s ≠ manifestFile → ∀ p, R ++ [s] <+: p →
        r.opened.disk.get? p = r.machine.disk.get? p := by
  generalize hrounds : r :: earlier = rounds at h
  induction h generalizing r earlier with
  | first hproper hstands hempty =>
    cases hrounds
    refine ⟨hstands, Round.settles hproper hmanifest hstands (.of_empty hempty), ?_⟩
    intro s _ _ p hp
    have hnone := hempty p (below_entry hp).1 (below_entry hp).2
    rw [hnone, opened_none hnone]
  | next hrun hproper hstands hothers ih =>
    cases hrounds
    obtain ⟨-, hsettles, -⟩ := ih rfl
    refine ⟨opened_stands hstands, Round.settles hproper hmanifest (opened_stands hstands) ?_,
      fun _ _ _ p _ => opened_same hstands p⟩
    exact hsettles.settled.of_same fun s hs p hp => by
      rw [opened_same hstands]
      exact hothers s hs p hp

/-- Every name a call of a run provisions was asked for and is valid. -/
theorem Rounds.asked {rounds : List (Round C)} (h : Rounds json R A rounds)
    (hmanifest : manifestFile ∉ A) :
    ∀ r ∈ rounds, ∀ s ∈ r.result.provisioned, s ∈ A ∧ isPlainName s = true := by
  induction h with
  | first hproper hstands hempty =>
    intro r hr s hs
    obtain rfl := List.mem_singleton.mp hr
    exact ((Rounds.first hproper hstands hempty).settles hmanifest).2.1.settled.asked s
      (List.mem_toFinset.mpr hs)
  | next hrun hproper hstands hothers ih =>
    intro r hr s hs
    rcases List.mem_cons.mp hr with rfl | hr
    · exact ((hrun.next hproper hstands hothers).settles hmanifest).2.1.settled.asked s
        (List.mem_toFinset.mpr hs)
    · exact ih r hr s hs

/-- **Calls of `provision` on one directory.** After every call of a run: the names provisioned are
the valid ones among the allowed that the user may use and the source has; the manifest reads as
that set; of all names ever provisioned, the directories that are there are these; the ones revoked
are those of the call before that are not among them, sorted, each once; and everything under a
name that is never asked for is as it was before the call. -/
theorem provision_in_rounds (hmanifest : manifestFile ∉ A)
    (hrun : Rounds json R A (r :: earlier)) :
    (∀ s, s ∈ r.result.provisioned ↔ s ∈ r.workspace.allowedSkills ∧ isPlainName s = true ∧
        r.provisioner.identity.canUseSkill r.user r.workspace.workspaceId s = true ∧
        r.provisioner.source.hasSkill r.machine s = true) ∧
      (∀ m, SameDisk r.after m → (∀ n, m.faults n = none) →
        (readManifest json r.dest m).1 = .ok r.result.provisioned.toFinset) ∧
      (∀ s, (∃ r' ∈ r :: earlier, s ∈ r'.result.provisioned) →
        (isdir r.after (r.dest.child s) = true ↔ s ∈ r.result.provisioned)) ∧
      (r.result.revoked.Pairwise (· < ·) ∧ ∀ s, s ∈ r.result.revoked ↔
        s ∈ lastProvisioned earlier ∧ s ∉ r.result.provisioned) ∧
      ∀ name, name ∉ A → name ≠ manifestFile → ∀ p, R ++ [name] <+: p →
        r.after.disk.get? p = r.machine.disk.get? p := by
  obtain ⟨hstands, hsettles, hforeign⟩ := hrun.settles hmanifest
  obtain ⟨hprovisioned, hrevoked, hsettled, hwritten, hwithin⟩ := hsettles
  have hstandsAfter : StandsAt r.after r.dest R := hstands.mono hwithin.sameOutside
  refine ⟨fun s => ?_, fun m hm hfaults => ?_, fun s hs => ?_, ⟨?_, fun s => ?_⟩,
    fun name hname hfile p hp => ?_⟩
  · rw [hprovisioned, List.mem_filter, SkillProvisioner.effective, Bool.and_eq_true,
      Bool.and_eq_true, and_assoc]
  · have hplain := fun s hs => (hsettled.asked s hs).2
    rcases readManifest_written (hstandsAfter.mono (hm.sameOutside R)).leads hplain
      (by rw [hm.1]; exact hwritten) with ⟨n, fault, hfault, -⟩ | hread
    · rw [hfaults] at hfault
      cases hfault
    · exact hread
  · obtain ⟨r', hr', hs⟩ := hs
    obtain ⟨hA, hplain⟩ := hrun.asked hmanifest r' hr' s hs
    constructor
    · intro hdir
      by_contra hnot
      have hslot : Slot r.after r.dest R s :=
        ⟨hstandsAfter.leads, isEntryName_of_isPlainName hplain, hsettled.noLinks s (.inl hA)⟩
      have hnone := hsettled.others s hA fun h => hnot (List.mem_toFinset.mp h)
      exact absurd (hnone.symm.trans (isdir_slot hslot hdir)) nofun
    · intro hprov
      have hthere := hsettled.dirs s (List.mem_toFinset.mpr hprov)
      have hfound : lookup r.after true (r.dest.child s) = .found (R ++ [s]) :=
        lookup_located_below hstandsAfter.leads (List.cons_ne_nil s []) hthere rfl
      rw [isdir, hfound]
      exact Disk.isDirAt_iff.mpr hthere
  · rw [hrevoked]
    exact Finset.sortedLT_sort _ |>.pairwise
  · rw [hrevoked, Finset.mem_sort, Finset.mem_sdiff, List.mem_toFinset, List.mem_toFinset]
  · rw [hwithin.same_at ?_ hp, hforeign name hname hfile p hp]
    rintro (hA | hA)
    · exact hname hA
    · exact hfile hA

end Run

/-! ## A source in a directory of its own -/

/-- A `LocalDirSkillSource` whose directory is apart from the skills directory, with no links on the
way to it or below it, has the same skills whatever happens in the skills directory. -/
theorem localDirSkillSource_stays {root : String} {S R : Location} {m m' : Machine C}
    (hroot : PosixPath.ofString root = ⟨true, S⟩) (hS : ∀ name ∈ S, isEntryName name = true)
    (hlinks : ∀ p target, m.disk.get? p ≠ some (.link target))
    (hapart : ∀ p, p <+: S ∨ S <+: p → ¬ (R <+: p ∧ p ≠ R)) (h : SameOutside R m m')
    (skill : String) : (localDirSkillSource root).hasSkill m' skill =
      (localDirSkillSource root).hasSkill m skill := by
  dsimp only [localDirSkillSource]
  cases hplain : isPlainName skill with
  | false => rfl
  | true =>
    have hsame : ∀ p, p <+: S ∨ S <+: p → m'.disk.get? p = m.disk.get? p :=
      fun p hp => h.2 p (hapart p hp)
    have hkinds : ∀ rest : List String, (∀ name ∈ rest, isEntryName name = true) →
        isdir m' ⟨true, S ++ rest⟩ = isdir m ⟨true, S ++ rest⟩ ∧
          isfile m' ⟨true, S ++ rest⟩ = isfile m ⟨true, S ++ rest⟩ := by
      intro rest hrest
      have hnames : ∀ name ∈ S ++ rest, isEntryName name = true := fun name hname =>
        (List.mem_append.mp hname).elim (hS name) (hrest name)
      have hlook : lookup m' true ⟨true, S ++ rest⟩ = lookup m true ⟨true, S ++ rest⟩ :=
        lookup_agree hnames (fun q _ => hlinks q) fun q hq =>
          hsame q (List.prefix_or_prefix_of_prefix hq (List.prefix_append S rest))
      have hspelled : Spelled m.disk [] (S ++ rest) (lookup m true ⟨true, S ++ rest⟩) :=
        walk_spelled m.disk.get?_root hnames fun q _ => hlinks q
      rw [isdir, isdir, isfile, isfile, hlook]
      generalize lookup m true ⟨true, S ++ rest⟩ = out at hspelled
      cases hspelled with
      | found he =>
        have hentry := hsame (S ++ rest) (.inr (List.prefix_append S rest))
        simp only [List.nil_append, Disk.isDirAt, hentry, and_self]
      | missing _ _ _ => exact ⟨rfl, rfl⟩
      | error e => exact ⟨rfl, rfl⟩
    have hskill := isEntryName_of_isPlainName hplain
    have hdir := (hkinds [skill] fun name hname => List.mem_singleton.mp hname ▸ hskill).1
    have hfile := (hkinds [skill, "SKILL.md"] fun name hname => by
      rcases List.mem_cons.mp hname with rfl | hname
      · exact hskill
      · rw [List.mem_singleton.mp hname]
        decide).2
    rw [isSkill, isSkill, hroot]
    simp only [PosixPath.child, List.append_assoc, List.singleton_append, hdir, hfile]

/-! ## A run -/

/-- A name in quotes. -/
def quoted (name : String) : List Char := '"' :: (name.toList ++ ['"'])

/-- Names in quotes, with commas between them. -/
def quotedNames : List String → List Char
  | [] => []
  | name :: names =>
    quoted name ++ (if names = [] then [] else ", ".toList) ++ quotedNames names

/-- The text of a manifest up to its first name. -/
def manifestHead : List Char := "\x7b\"version\": 1, \"managed\": [".toList

/-- The names between quotes in a text; `inside` holds the one being read, backwards. -/
def scanNames : (inside : Option (List Char)) → List Char → List String
  | _, [] => []
  | none, c :: cs => scanNames (if c = '"' then some [] else none) cs
  | some name, c :: cs =>
    if c = '"' then String.ofList name.reverse :: scanNames none cs
    else scanNames (some (c :: name)) cs

theorem scanNames_quoted {name : List Char} (h : '"' ∉ name) (before rest : List Char) :
    scanNames (some before) (name ++ '"' :: rest) =
      String.ofList (before.reverse ++ name) :: scanNames none rest := by
  induction name generalizing before with
  | nil => simp only [List.nil_append, scanNames, if_true, List.append_nil]
  | cons c cs ih =>
    obtain ⟨hc, hcs⟩ := not_or.mp (mt List.mem_cons.mpr h)
    rw [List.cons_append, scanNames, if_neg (Ne.symm hc), ih hcs, List.reverse_cons,
      List.append_assoc, List.singleton_append]

theorem scanNames_quotedNames {names : List String} (h : ∀ name ∈ names, isPlainName name = true)
    (tail : List Char) (htail : scanNames none tail = []) :
    scanNames none (quotedNames names ++ tail) = names := by
  induction names with
  | nil => exact htail
  | cons name names ih =>
    have hquote : '"' ∉ name.toList := by
      intro hmem
      have hplain := h name List.mem_cons_self
      simp only [isPlainName, Bool.and_eq_true, List.all_eq_true] at hplain
      exact absurd (hplain.1.1.2 '"' hmem) (by decide)
    have hrest := ih fun n hn => h n (List.mem_cons_of_mem _ hn)
    simp only [quotedNames, quoted, List.cons_append, List.append_assoc, scanNames, if_true,
      List.nil_append, scanNames_quoted hquote, List.reverse_nil, String.ofList_toList]
    split
    · rw [List.nil_append, hrest]
    · rw [show ", ".toList = [',', ' '] from rfl, List.cons_append, List.cons_append,
        List.nil_append, scanNames, if_neg (by decide), scanNames, if_neg (by decide), hrest]

/-- Manifests as the library writes them. -/
def textFile : JsonFile (List Char) where
  dump
    | .obj [_, (_, .arr names)] =>
      manifestHead ++ (quotedNames (names.filterMap fun
        | .str name => some name
        | _ => none) ++ "]\x7d".toList)
    | _ => []
  load text :=
    if manifestHead.isPrefixOf text then
      .ok (manifestOf (scanNames none (text.drop manifestHead.length)))
    else .error ⟨.jsonDecodeError, "Expecting value: line 1 column 1 (char 0)"⟩
  load_dump managed h := by
    have hnames : (managed.map Json.str).filterMap (fun
        | .str name => some name
        | _ => none) = managed := by
      rw [List.filterMap_map]
      exact List.filterMap_some
    simp only [manifestOf, hnames]
    rw [if_pos (List.isPrefixOf_iff_prefix.mpr (List.prefix_append _ _)), List.drop_left,
      scanNames_quotedNames h _ rfl]

/-- The skills `abtest` and `lint`, and a workspace whose skills directory is empty. -/
def skillsDisk : Disk (List Char) :=
  let dirs := [["src"], ["src", "abtest"], ["src", "lint"], ["ws"], ["ws", ".agents"],
    ["ws", ".agents", "skills"]]
  let files := [["src", "abtest", "SKILL.md"], ["src", "lint", "SKILL.md"]]
  files.foldl (fun d p => d.put p (.file "# skill".toList))
    (dirs.foldl (fun d p => d.put p .dir) Disk.empty)

/-- No link stands on a disk that is built of directories and files. -/
theorem skillsDisk_noLinks (p : Location) (target : String) :
    skillsDisk.get? p ≠ some (.link target) := by
  have hput : ∀ (d : Disk (List Char)) (q : Location) (e : Entry (List Char)), e.isLink = false →
      (d.put q e).get? p = some (.link target) → d.get? p = some (.link target) := by
    intro d q e he
    exact ((Spares.refl ∅ ⟨d, [], fun _ => none, 0⟩).put (Set.notMem_empty q) he).links p target
  have hputs : ∀ (e : Entry (List Char)) (ps : List Location) (d : Disk (List Char)),
      e.isLink = false → (ps.foldl (fun d q => d.put q e) d).get? p = some (.link target) →
      d.get? p = some (.link target) := by
    intro e ps
    induction ps with
    | nil => exact fun d _ h => h
    | cons q ps ih => exact fun d he h => hput d q e he (ih _ he h)
  intro h
  have hempty := hputs .dir _ _ rfl (hputs (.file "# skill".toList) _ _ rfl h)
  by_cases hp : p = []
  · subst hp
    cases hempty
  · rw [Disk.get?_empty hp] at hempty
    cases hempty

/-- A provisioner that lets everybody use every skill. -/
def openProvisioner : SkillProvisioner (List Char) where
  source := localDirSkillSource "/src"
  identity := ⟨fun _ _ => true, fun _ _ _ => true, fun _ _ _ => true⟩
  json := textFile
  depths := { makedirs := 900, copytree := 450, rmtree := 900 }

/-- A workspace with two known skills, one unknown and one that is no name. -/
def skilledWorkspace : ResolvedWorkspace where
  workspaceId := "ws"
  cwd := "/ws"
  env := ∅
  sensitiveKeys := []
  allowedSkills := ["lint", "../src", "abtest", "deploy"]

def skilledUser : User := { userId := "u", displayName := "A" }

/-- The first call on it. -/
def firstRound : Round (List Char) where
  provisioner := openProvisioner
  workspace := skilledWorkspace
  user := skilledUser
  machine := { disk := skillsDisk }
  result := { provisioned := ["lint", "abtest"], missing := ["deploy"], invalid := ["../src"] }
  after := (openProvisioner.provision skilledWorkspace skilledUser { disk := skillsDisk }).2
  returns := Prod.ext (by with_unfolding_all rfl) rfl

/-- Its `dest_root`. -/
def skillsRoot : Location := ["ws", ".agents", "skills"]

theorem firstRound_stands : StandsAt firstRound.machine firstRound.dest skillsRoot := by
  have hdir : skillsDisk.get? skillsRoot = some .dir := by with_unfolding_all rfl
  refine ⟨hdir, fun m' hm' => ?_⟩
  have hdir' : m'.disk.get? skillsRoot = some .dir := (hm'.2 _ fun hne => hne.2 rfl).trans hdir
  have hdest : firstRound.dest = ⟨true, skillsRoot⟩ := by with_unfolding_all rfl
  rw [hdest]
  exact lookup_located hdir' rfl

theorem firstRound_runs :
    Rounds textFile skillsRoot {s | s ∈ skilledWorkspace.allowedSkills} [firstRound] := by
  have hopened : SameDisk firstRound.machine firstRound.opened :=
    makedirs_leads firstRound_stands.leads _
  have hsame := hopened.sameOutside skillsRoot
  refine .first ⟨rfl, fun _ hs => hs, fun m hm s => ?_⟩ (firstRound_stands.mono hsame) ?_
  · refine localDirSkillSource_stays (S := ["src"]) (by with_unfolding_all rfl) (by decide)
      skillsDisk_noLinks (fun p hp hbelow => ?_) (hsame.trans hm) s
    -- what starts at `/ws` is neither above nor below `/src`
    obtain ⟨⟨q, rfl⟩, -⟩ := hbelow
    rcases hp with hp | hp
    · exact absurd hp.length_le (by simp [skillsRoot])
    · obtain ⟨_, hq⟩ := hp
      exact absurd (List.cons.inj hq).1 (by decide)
  · intro p hp hne
    rw [hopened.1]
    exact Disk.get?_below_empty (by with_unfolding_all rfl) hp hne

/-- The first call provisions the two skills there are; the manifest then names them. -/
theorem provision_in_rounds_first :
    "abtest" ∈ firstRound.result.provisioned ∧
      isdir firstRound.after (firstRound.dest.child "abtest") = true ∧
      ∀ m, SameDisk firstRound.after m → (∀ n, m.faults n = none) →
        (readManifest textFile firstRound.dest m).1 = .ok {"lint", "abtest"} := by
  obtain ⟨-, hread, hdirs, -⟩ := provision_in_rounds (by decide) firstRound_runs
  have hin : "abtest" ∈ firstRound.result.provisioned := by decide
  exact ⟨hin, (hdirs _ ⟨_, List.mem_singleton.mpr rfl, hin⟩).mpr hin, hread⟩

end ClawEngine.Skills
