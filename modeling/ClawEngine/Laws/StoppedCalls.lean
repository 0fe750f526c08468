import ClawEngine.Laws.ManifestTolerance

/-!
# What a call keeps wherever it stops

A call of `provision` may raise at any of its operations: a file cannot be read, a directory not
made, the manifest not written. An invariant survives the call all the same if it survives what the
loops come to, each copy of a skill that is to be written, each removal of a name that was listed
and the writing of the manifest. These are the rules for that; a rule of a loop gives its step what
the loop knows there.
-/

set_option autoImplicit false

namespace ClawEngine.Skills

open ClawEngine.Core ClawEngine.Core.Act ClawEngine.Posix ClawEngine.Context ClawEngine.Identity

variable {C : Type}

/-! ## The copy loop -/

section Copying

variable [Inhabited C] {P : SkillProvisioner C} {ws : ResolvedWorkspace} {user : User}
  {dest : PosixPath} {I : Machine C → Prop} {m m' : Machine C} {result result' : ProvisionResult}

/-- A skill keeps the invariant where copying it from the source does, if it is to be written. -/
theorem provisionSkill_keeps_from {skill : String} (hm : I m)
    (hcopy : P.effective ws user m skill = true → ∀ src, P.source.skillDir m skill = .ok src →
      I (copytree P.depths.copytree src (dest.child skill) m).2) :
    I (provisionSkill P ws user dest result skill m).2 := by
  unfold provisionSkill
  split
  · exact hm
  next hplain =>
  split
  · exact hm
  next hallowed =>
  rw [read_bind]
  split
  next hhas =>
    rw [Bool.not_eq_true, Bool.not_eq_false'] at hplain hallowed
    have heffective : P.effective ws user m skill = true := by
      simp only [SkillProvisioner.effective, hplain, hallowed, hhas, Bool.and_self]
    refine bind_ends_at ?_ fun src m₁ hread _ => ?_
    · rwa [mapError_left]
    · obtain ⟨hsrc, rfl⟩ := readE_eq_ok.mp (mapError_eq_ok.mp hread)
      refine bind_ends_at ?_ fun _ _ _ hleft => hleft
      rw [mapError_left]
      exact hcopy heffective src hsrc
  next =>
    rw [read_bind]
    split <;> exact hm

theorem provisionSkill_keeps_at {skill : String} (hm : I m)
    (hcopy : P.effective ws user m skill = true → ∀ src,
      I (copytree P.depths.copytree src (dest.child skill) m).2) :
    I (provisionSkill P ws user dest result skill m).2 :=
  provisionSkill_keeps_from hm fun heffective src _ => hcopy heffective src

/-- **The copy loop keeps what copying from the source keeps**, of the skills that are to be
written. -/
theorem provisionSkills_keeps_from (skills : List String)
    (hcopy : ∀ s ∈ skills, ∀ m, I m → P.effective ws user m s = true → ∀ src,
      P.source.skillDir m s = .ok src → I (copytree P.depths.copytree src (dest.child s) m).2) :
    Keeps I (provisionSkills P ws user dest skills result) := by
  induction skills generalizing result with
  | nil => exact keeps_pure _
  | cons skill skills ih =>
    have hrest := fun s hs => hcopy s (List.mem_cons_of_mem skill hs)
    refine Keeps.bind (fun m hm => ?_) fun result => ih hrest
    exact provisionSkill_keeps_from hm (hcopy skill List.mem_cons_self m hm)

theorem provisionSkills_keeps_each (skills : List String)
    (hcopy : ∀ s ∈ skills, ∀ m, I m → P.effective ws user m s = true → ∀ src,
      I (copytree P.depths.copytree src (dest.child s) m).2) :
    Keeps I (provisionSkills P ws user dest skills result) :=
  provisionSkills_keeps_from skills fun s hs m hm heffective src _ => hcopy s hs m hm heffective src

/-- A skill that was provisioned was to be written, and was copied. -/
theorem provisionSkill_copied {skill : String}
    (hok : provisionSkill P ws user dest result skill m = (.ok result', m')) :
    ∀ s ∈ result'.provisioned, s ∈ result.provisioned ∨ s = skill ∧
      P.effective ws user m skill = true ∧ ∃ src, P.source.skillDir m skill = .ok src ∧
        copytree P.depths.copytree src (dest.child skill) m = (.ok (), m') := by
  intro s hs
  rw [provisionSkill_headed hok, headed_provisioned] at hs
  refine (List.mem_append.mp hs).imp_right fun hs => ?_
  obtain ⟨hs, heffective⟩ := List.mem_filter.mp hs
  obtain rfl := List.mem_singleton.mp hs
  refine ⟨rfl, heffective, ?_⟩
  simp only [SkillProvisioner.effective, Bool.and_eq_true] at heffective
  obtain ⟨⟨hplain, hallowed⟩, hhas⟩ := heffective
  unfold provisionSkill at hok
  rw [hplain, hallowed, Bool.not_true, if_neg Bool.false_ne_true, if_neg Bool.false_ne_true,
    read_bind, hhas, if_pos rfl] at hok
  obtain ⟨src, m₁, hread, hok⟩ := bind_eq_ok.mp hok
  obtain ⟨hsrc, rfl⟩ := readE_eq_ok.mp (mapError_eq_ok.mp hread)
  obtain ⟨_, m₂, hcopied, hend⟩ := bind_eq_ok.mp hok
  cases hend
  exact ⟨src, hsrc, mapError_eq_ok.mp hcopied⟩

/-- What the loop has provisioned was to be written when its turn came, and was copied then. -/
theorem provisionSkills_provisioned (skills : List String)
    (hcopy : ∀ s ∈ skills, ∀ m, I m → P.effective ws user m s = true → ∀ src,
      I (copytree P.depths.copytree src (dest.child s) m).2) (hm : I m)
    (hok : provisionSkills P ws user dest skills result m = (.ok result', m')) :
    ∀ s ∈ result'.provisioned, s ∈ result.provisioned ∨ s ∈ skills ∧ ∃ m₁ src m₂, I m₁ ∧
      P.effective ws user m₁ s = true ∧
      copytree P.depths.copytree src (dest.child s) m₁ = (.ok (), m₂) := by
  induction skills generalizing result m with
  | nil =>
    cases hok
    exact fun s hs => .inl hs
  | cons skill skills ih =>
    obtain ⟨result₁, m₁, hskill, hrest⟩ := bind_eq_ok.mp hok
    have hm₁ : I (provisionSkill P ws user dest result skill m).2 :=
      provisionSkill_keeps_at hm (hcopy skill List.mem_cons_self m hm)
    rw [hskill] at hm₁
    intro s hs
    rcases ih (fun s hs => hcopy s (List.mem_cons_of_mem skill hs)) hm₁ hrest s hs with hs | hs
    · rcases provisionSkill_copied hskill s hs with hs | ⟨rfl, heffective, src, -, hcopied⟩
      · exact .inl hs
      · exact .inr ⟨List.mem_cons_self, m, src, m₁, hm, heffective, hcopied⟩
    · exact .inr ⟨List.mem_cons_of_mem skill hs.1, hs.2⟩

end Copying

/-! ## The removal loop -/

section Revoking

variable {depth : Nat} {dest : PosixPath} {R real : Location} {I : Machine C → Prop}
  {m : Machine C} {s : String}

/-- Removing a directory by its location keeps what survives removals there. -/
theorem rmtree_located_keeps {p : Location} (hdir : m.disk.get? p = some .dir) (hcuts : Cuts I p)
    (hm : I m) : I (rmtree depth ⟨true, p⟩ m).2 := by
  refine bind_ends_at hm fun q m₁ hread hm₁ => ?_
  obtain ⟨hanswer, rfl⟩ := readE_eq_ok.mp hread
  rw [lookup_located hdir rfl] at hanswer
  dsimp only at hanswer
  rw [hdir] at hanswer
  cases hanswer
  exact hcuts.removeTree _ List.prefix_rfl m hm₁

/-- Revoking a name without links keeps what survives removals there. -/
theorem revokeSkill_keeps_slot (hslot : Slot m dest R s) (hcuts : Cuts I (R ++ [s])) (hm : I m)
    (revoked : List String) : I (revokeSkill depth dest R revoked s m).2 := by
  by_cases hdir : m.disk.get? (R ++ [s]) = some .dir
  · rw [revokeSkill_dir hslot.leads hdir]
    refine bind_ends_at ?_ fun _ _ _ hleft => hleft
    rw [mapError_left]
    exact rmtree_located_keeps hdir hcuts hm
  · rwa [revokeSkill_skips hslot.leads hslot.name (hslot.noLinks _ List.prefix_rfl) hdir]

/-- **The removal loop keeps what each removal keeps.** -/
theorem revokeSkills_keeps_each (skills revoked : List String)
    (hstep : ∀ s ∈ skills, ∀ m revoked, I m → I (revokeSkill depth dest real revoked s m).2) :
    Keeps I (revokeSkills depth dest real skills revoked) := by
  induction skills generalizing revoked with
  | nil => exact keeps_pure _
  | cons skill skills ih =>
    refine Keeps.bind (fun m hm => hstep skill List.mem_cons_self m revoked hm) fun revoked => ?_
    exact ih revoked fun s hs => hstep s (List.mem_cons_of_mem skill hs)

end Revoking

/-! ## The manifest -/

section Manifest

variable {json : JsonFile C} {dest : PosixPath} {R : Location} {m m' : Machine C}
  {names : Finset String}

/-- A file that was read is where its path leads. -/
theorem readFile_eq_ok {p : PosixPath} {content : C} (hok : readFile p m = (.ok content, m')) :
    ∃ q, lookup m true p = .found q ∧ m.disk.get? q = some (.file content) := by
  obtain ⟨q, m₁, hopen, hread⟩ := bind_eq_ok.mp hok
  obtain ⟨_, m₂, hcheck, hopen⟩ := bind_eq_ok.mp hopen
  have hsame : SameDisk m m₂ := (SameDisk.ticks m).checkFault.of_eq ⟨rfl, rfl⟩ hcheck
  obtain ⟨hanswer, rfl⟩ := readE_eq_ok.mp hopen
  have hlook : lookup m₂ true p = lookup m true p := by rw [lookup, lookup, hsame.1, hsame.2]
  obtain ⟨-, hfile⟩ := readAt_eq_ok hread
  rw [hsame.1] at hfile
  rw [hlook] at hanswer
  split at hanswer
  next r hr =>
    split at hanswer
    · cases hanswer
    · cases hanswer
      exact ⟨_, hr, hfile⟩
  · cases hanswer
  · cases hanswer

/-- **What was read of a manifest** is what its content is taken for, or nothing where there is
none. -/
theorem readManifest_eq_ok (hok : readManifest json dest m = (.ok names, m')) :
    (names = ∅ ∧ (readFile (dest.child manifestFile) m).1 = .error .fileNotFound) ∨
    ∃ q content, lookup m true (dest.child manifestFile) = .found q ∧
      m.disk.get? q = some (.file content) ∧ json.managed content = .ok names := by
  obtain ⟨outcome, m₁, hattempt, hok⟩ := bind_eq_ok.mp hok
  have hread := attempt_eq_ok.mp hattempt
  split at hok
  · cases hok
    exact .inl ⟨rfl, by rw [hread]⟩
  · cases hok
  next content =>
    obtain ⟨q, hfound, hfile⟩ := readFile_eq_ok hread
    refine .inr ⟨q, content, hfound, hfile, ?_⟩
    unfold JsonFile.managed
    cases hload : json.load content with
    | error e =>
      simp only [hload] at hok
      split at hok
      next hkind =>
        cases hok
        exact if_pos hkind
      · cases hok
    | ok data =>
      simp only [hload] at hok
      exact (readE_eq_ok.mp (mapError_eq_ok.mp hok)).1

/-- A manifest that was written is read as what it names. -/
theorem JsonFile.managed_manifest (json : JsonFile C)
    (hplain : ∀ s ∈ names, isPlainName s = true) :
    json.managed (json.manifest names) = .ok names := by
  have hload : json.load (json.manifest names) = .ok (manifestOf (names.sort (· ≤ ·))) :=
    json.load_dump _ fun s hs => hplain s ((Finset.mem_sort _).mp hs)
  simp only [JsonFile.managed, hload, readManaged_manifestOf, managedNames_sort hplain]

end Manifest

/-! ## A call -/

section Call

variable [Inhabited C] {P : SkillProvisioner C} {ws : ResolvedWorkspace} {user : User}
  {I : Machine C → Prop}

/-- A call writes the manifest last. -/
theorem provisionOpened_eq : P.provisionOpened ws user = (do
    let (result, revoked) ← P.upToManifest ws user
    writeManifest P.json (P.destRoot ws) result.provisioned.toFinset
    pure { result with revoked }) := by
  simp only [SkillProvisioner.provisionOpened, SkillProvisioner.upToManifest, bind_bind]
  rfl

/-- Where no operation meets a fault, none that writes the manifest does. -/
theorem upToManifest_calm : Keeps Calm (P.upToManifest ws user) := by
  refine (readManifest_keeps calm_carries.tick _ _).bind fun prev => ?_
  refine (provisionSkills_keeps calm_carries (fun _ _ _ _ => Set.mem_univ _) _ _ _).bind
    fun result => ?_
  refine ((keeps_readE _).mapError _).bind fun real => ?_
  exact (revokeSkills_keeps calm_cuts _ _ _ _).bind fun revoked => keeps_pure _

section Stops

variable {N : String → Prop} {Q : Location → Prop} (hticks : Ticks I)
  (hlisted : ∀ m names m', I m → readManifest P.json (P.destRoot ws) m = (.ok names, m') →
    ∀ s ∈ names, N s)
  (hcopy : ∀ s ∈ ws.allowedSkills, ∀ m, I m → P.effective ws user m s = true → ∀ src,
    I (copytree P.depths.copytree src ((P.destRoot ws).child s) m).2)
  (hreal : ∀ m real, I m → realpath m (P.destRoot ws) = .ok real → Q real)
  (hrevoke : ∀ s, N s → ∀ real, Q real → ∀ m revoked, I m →
    I (revokeSkill P.depths.rmtree (P.destRoot ws) real revoked s m).2)

include hticks hlisted hcopy hreal hrevoke

/-- **Up to the manifest a call keeps what its steps keep**, wherever it stops: of the names that
were read of the manifest (`N`) those are removed that are not written. -/
theorem upToManifest_keeps : Keeps I (P.upToManifest ws user) := by
  refine (readManifest_keeps hticks _ _).bind_of (P := fun names => ∀ s ∈ names, N s) hlisted
    fun prev hprev => ?_
  refine (provisionSkills_keeps_each _ hcopy).bind fun result => ?_
  refine ((keeps_readE _).mapError _).bind_of (P := Q) ?_ fun real hQ => ?_
  · intro m real m' hm hok
    exact hreal m real hm (readE_eq_ok.mp (mapError_eq_ok.mp hok)).1
  refine (revokeSkills_keeps_each _ _ fun s hs => ?_).bind fun revoked => keeps_pure _
  exact hrevoke s (hprev s (mem_outdated.mp hs).1) real hQ

omit hlisted hreal hrevoke in
/-- What has been provisioned by then was to be written, and was copied. -/
theorem upToManifest_provisioned {m m' : Machine C} {result : ProvisionResult}
    {revoked : List String} (hm : I m)
    (hok : P.upToManifest ws user m = (.ok (result, revoked), m')) :
    ∀ s ∈ result.provisioned, s ∈ ws.allowedSkills ∧ ∃ m src m', I m ∧
      P.effective ws user m s = true ∧
      copytree P.depths.copytree src ((P.destRoot ws).child s) m = (.ok (), m') := by
  obtain ⟨prev, m₁, hread, hok⟩ := bind_eq_ok.mp hok
  obtain ⟨copied, m₂, hcopied, hok⟩ := bind_eq_ok.mp hok
  obtain ⟨real, m₃, -, hok⟩ := bind_eq_ok.mp hok
  obtain ⟨names, m₄, -, hok⟩ := bind_eq_ok.mp hok
  cases hok
  have hm₁ := (readManifest_keeps hticks P.json (P.destRoot ws)).of_eq hm hread
  intro s hs
  exact (provisionSkills_provisioned _ hcopy hm₁ hcopied s hs).resolve_left List.not_mem_nil

/-- **A call keeps what its steps keep**, wherever it stops; the manifest names what was written. -/
theorem provisionOpened_keeps_each
    (hwrite : ∀ names : Finset String, (∀ s ∈ names, s ∈ ws.allowedSkills ∧ ∃ m src m', I m ∧
        P.effective ws user m s = true ∧
        copytree P.depths.copytree src ((P.destRoot ws).child s) m = (.ok (), m')) →
      Keeps I (writeManifest P.json (P.destRoot ws) names)) :
    Keeps I (P.provisionOpened ws user) := by
  rw [provisionOpened_eq]
  refine (upToManifest_keeps hticks hlisted hcopy hreal hrevoke).bind_of (P := fun answer =>
    ∀ s ∈ answer.1.provisioned, s ∈ ws.allowedSkills ∧ ∃ m src m', I m ∧
      P.effective ws user m s = true ∧
      copytree P.depths.copytree src ((P.destRoot ws).child s) m = (.ok (), m'))
    ?_ fun answer hanswer => ?_
  · rintro m ⟨result, revoked⟩ m' hm hok
    exact upToManifest_provisioned hticks hcopy hm hok
  · exact (hwrite _ fun s hs => hanswer s (List.mem_toFinset.mp hs)).bind fun _ => keeps_pure _

/-- **What a call that raised has kept**, where writing the manifest returns: it had come no further
than to the removals. -/
theorem provisionOpened_raised {m m' : Machine C} {e : ProvisionError}
    (hwrite : ∀ names, I (P.upToManifest ws user m).2 →
      Returns (writeManifest P.json (P.destRoot ws) names) (P.upToManifest ws user m).2)
    (hm : I m) (hraised : P.provisionOpened ws user m = (.error e, m')) : I m' := by
  have hstages := upToManifest_keeps hticks hlisted hcopy hreal hrevoke
  rw [provisionOpened_eq] at hraised
  rcases bind_eq_error.mp hraised with h | ⟨answer, m₁, hstopped, h⟩
  · exact hstages.of_eq hm h
  · rw [hstopped] at hwrite
    obtain ⟨_, m₂, hwritten⟩ := hwrite answer.1.provisioned.toFinset (hstages.of_eq hm hstopped)
    rcases bind_eq_error.mp h with h | ⟨_, m₃, -, h⟩
    · cases hwritten.symm.trans h
    · cases h

end Stops

end Call

end ClawEngine.Skills
