import ClawEngine.Laws.SkillTrees
import ClawEngine.Posix.Removals

/-!
# What stops a call

`_read_manifest` means to drop what is malformed in a manifest, and takes one that is no JSON for
none. It does not look at the shape of the document, though: a manifest that is no object, or whose
`managed` is no list, stops the call or has other names removed. Nor does a name that is valid keep
clear of the manifest's own file. `provision_unblocked_iff` says when a call is stopped by neither.

The machine's operations meet no fault here. No link stands in the skills directory, and the source
can be read.
-/

set_option autoImplicit false

namespace ClawEngine.Skills

open ClawEngine.Core ClawEngine.Core.Act ClawEngine.Posix ClawEngine.Context ClawEngine.Identity

variable {C : Type}

theorem calm_carries [Inhabited C] :
    Carries (Calm (C := C)) Set.univ (fun _ => True) (fun _ => True) (fun _ => True) where
  tick _ _ h := h
  dir _ _ _ h _ := h
  lands _ _ _ _ _ _ _ := trivial
  file _ _ _ h _ _ := h
  child _ _ _ _ := Set.mem_univ _
  opens _ _ _ _ _ _ := trivial
  reads _ _ _ _ _ _ := trivial
  dropped := trivial
  left _ _ _ _ _ := trivial

/-! ## The copy loop, when it returns -/

/-- What the copy loop works on: a path that leads to the skills directory, in which no link stands,
and a source apart from it that can be read. No operation meets a fault. -/
structure CopyReady (P : SkillProvisioner C) (ws : ResolvedWorkspace) (R : Location)
    (m : Machine C) : Prop where
  calm : Calm m
  leads : Leads m (P.destRoot ws) R
  noLinks : NoLinks m R
  source : P.source.ApartFrom R m
  hasDir : ∀ m', SameOff {R} m m' → ∀ s, P.source.hasDir m' s = P.source.hasDir m s
  reads : ∀ s, P.source.hasSkill m s = true → ∃ path, P.source.skillDir m s = .ok path ∧
    entryOf m path = some .dir ∧ Unbroken m path

/-- A result with one more skill, under its heading. -/
def headed (P : SkillProvisioner C) (ws : ResolvedWorkspace) (user : User) (m : Machine C)
    (result : ProvisionResult) (skill : String) : ProvisionResult :=
  if !isPlainName skill then { result with invalid := result.invalid ++ [skill] }
  else if !P.identity.canUseSkill user ws.workspaceId skill then
    { result with denied := result.denied ++ [skill] }
  else if P.source.hasSkill m skill then
    { result with provisioned := result.provisioned ++ [skill] }
  else if P.source.hasDir m skill then { result with invalid := result.invalid ++ [skill] }
  else { result with missing := result.missing ++ [skill] }

section Headings

variable {P : SkillProvisioner C} {ws : ResolvedWorkspace} {user : User} {R : Location}
  {m m' : Machine C} {result result' : ProvisionResult}

theorem headed_provisioned (P : SkillProvisioner C) (ws : ResolvedWorkspace) (user : User)
    (m : Machine C) (result : ProvisionResult) (skill : String) :
    (headed P ws user m result skill).provisioned =
      result.provisioned ++ [skill].filter (P.effective ws user m) := by
  unfold headed
  cases hplain : isPlainName skill <;>
    cases hallowed : P.identity.canUseSkill user ws.workspaceId skill <;>
    cases hhas : P.source.hasSkill m skill <;> cases hdir : P.source.hasDir m skill <;>
    simp [SkillProvisioner.effective, hplain, hallowed, hhas]

/-- **The provisioned skills** are those that are to be written, in their order. -/
theorem foldl_headed_provisioned (P : SkillProvisioner C) (ws : ResolvedWorkspace) (user : User)
    (m : Machine C) (result : ProvisionResult) (skills : List String) :
    (skills.foldl (headed P ws user m) result).provisioned =
      result.provisioned ++ skills.filter (P.effective ws user m) := by
  induction skills generalizing result with
  | nil => exact (List.append_nil _).symm
  | cons skill skills ih =>
    rw [List.foldl_cons, ih, headed_provisioned, List.append_assoc, ← List.filter_append,
      List.singleton_append]

namespace CopyReady

/-- What the loop works on stays so, whatever is made in the skills directory. -/
theorem congr (h : CopyReady P ws R m) (hcalm : Calm m') (hexpands : Expands (Outside R) m m') :
    CopyReady P ws R m' := by
  have hoff : SameOff {R} m m' := hexpands.sameOutside.sameOff
  refine ⟨hcalm, hexpands.leads h.leads, h.noLinks.mono hexpands.links, h.source.congr hoff,
    fun m'' hm' s => (h.hasDir m'' (hoff.trans hm') s).trans (h.hasDir m' hoff s).symm,
    fun s hs => ?_⟩
  rw [h.source.hasSkill m' hoff] at hs
  obtain ⟨path, hpath, hdir, hunbroken⟩ := h.reads s hs
  obtain ⟨p, n, rfl, hn, hapart⟩ := h.source.trees s path hpath
  refine ⟨_, (h.source.skillDir m' hoff s).trans hpath, ?_, hunbroken.congr hn hapart hoff⟩
  rw [hapart.self.entryOf_eq hn hoff, hdir]

/-- Nor do the headings change. -/
theorem headed_eq (h : CopyReady P ws R m) (hoff : SameOff {R} m m') :
    headed P ws user m' = headed P ws user m := by
  funext result skill
  unfold headed
  rw [h.source.hasSkill m' hoff, h.hasDir m' hoff]

theorem effective_eq (h : CopyReady P ws R m) (hoff : SameOff {R} m m') :
    P.effective ws user m' = P.effective ws user m := by
  funext skill
  rw [SkillProvisioner.effective, SkillProvisioner.effective, h.source.hasSkill m' hoff]

theorem slot (h : CopyReady P ws R m) {s : String} (hs : isEntryName s = true) :
    Slot m (P.destRoot ws) R s :=
  ⟨h.leads, hs, fun p hp => h.noLinks p ((List.prefix_append R [s]).trans hp)⟩

end CopyReady

variable [Inhabited C]

/-- A skill is noted under its heading. -/
theorem provisionSkill_headed {dest : PosixPath} {skill : String}
    (hok : provisionSkill P ws user dest result skill m = (.ok result', m')) :
    result' = headed P ws user m result skill := by
  unfold provisionSkill at hok
  unfold headed
  split at hok
  next hplain =>
    cases hok
    rw [if_pos hplain]
  next hplain =>
  rw [if_neg hplain]
  split at hok
  next hallowed =>
    cases hok
    rw [if_pos hallowed]
  next hallowed =>
  rw [if_neg hallowed]
  rw [read_bind] at hok
  split at hok
  next hhas =>
    obtain ⟨src, m₁, -, hok⟩ := bind_eq_ok.mp hok
    obtain ⟨_, m₂, -, hok⟩ := bind_eq_ok.mp hok
    cases hok
    rw [if_pos hhas]
  next hhas =>
  rw [if_neg hhas]
  rw [read_bind] at hok
  split at hok
  next hdir =>
    cases hok
    rw [if_pos hdir]
  next hdir =>
    cases hok
    rw [if_neg hdir]

/-- A skill that was provisioned leaves the loop what it works on. -/
theorem CopyReady.after (h : CopyReady P ws R m) {skill : String}
    (hok : provisionSkill P ws user (P.destRoot ws) result skill m = (.ok result', m')) :
    CopyReady P ws R m' := by
  obtain ⟨_, -, hlaid⟩ := provisionSkill_lays h.source h.leads h.noLinks hok
  refine h.congr ?_ hlaid.expands
  have hkeeps : Keeps Calm (provisionSkills P ws user (P.destRoot ws) [skill] result) :=
    provisionSkills_keeps calm_carries (fun _ _ _ _ => Set.mem_univ _) _ _ _
  exact hkeeps.of_eq h.calm (bind_eq_ok.mpr ⟨result', m', hok, rfl⟩)

/-- **When a skill is provisioned without an exception**: if it is to be written, its tree fits. -/
theorem provisionSkill_returns (h : CopyReady P ws R m) (skill : String) :
    Returns (provisionSkill P ws user (P.destRoot ws) result skill) m ↔
      (P.effective ws user m skill = true →
        FitsOver P.depths.copytree skill (P.source.tree m skill) (m.disk.treeAt (R ++ [skill]))) := by
  unfold provisionSkill SkillProvisioner.effective
  cases hplain : isPlainName skill with
  | false => exact iff_of_true (returns_pure _ _) nofun
  | true =>
  cases hallowed : P.identity.canUseSkill user ws.workspaceId skill with
  | false => exact iff_of_true (returns_pure _ _) nofun
  | true =>
  rw [Bool.not_true, if_neg Bool.false_ne_true, if_neg Bool.false_ne_true]
  cases hhas : P.source.hasSkill m skill with
  | false =>
    refine iff_of_true ?_ nofun
    refine returns_bind.mpr ⟨false, m, read_eq_ok.mpr ⟨hhas, rfl⟩, ?_⟩
    rw [if_neg Bool.false_ne_true]
    refine returns_bind.mpr ⟨_, m, read_eq_ok.mpr ⟨rfl, rfl⟩, ?_⟩
    split <;> exact returns_pure _ _
  | true =>
    obtain ⟨path, hpath, hdir, hunbroken⟩ := h.reads skill hhas
    obtain ⟨p, n, rfl, hn, hapart⟩ := h.source.trees skill path hpath
    have hfits := (copytree_fits P.depths.copytree).returns
      (h.slot (isEntryName_of_isPlainName hplain)) h.calm hn (hapart.mono (covers_below R _))
      hunbroken hdir
    rw [SkillSource.tree_of_ok hpath, ← hfits]
    constructor
    · rintro ⟨result', m', hok⟩ -
      obtain ⟨has, m₁, hread, hok⟩ := bind_eq_ok.mp hok
      obtain ⟨rfl, rfl⟩ := read_eq_ok.mp hread
      rw [hhas, if_pos rfl] at hok
      obtain ⟨src, m₁, hread, hok⟩ := bind_eq_ok.mp hok
      obtain ⟨hsrc, rfl⟩ := readE_eq_ok.mp (mapError_eq_ok.mp hread)
      cases hpath.symm.trans hsrc
      obtain ⟨u, m₂, hcopied, -⟩ := bind_eq_ok.mp hok
      exact ⟨u, m₂, mapError_eq_ok.mp hcopied⟩
    · intro hreturns
      obtain ⟨u, m₁, hcopied⟩ := hreturns rfl
      have hsrc : (Act.readE (P.source.skillDir · skill)).mapError ProvisionError.skill m =
          (.ok (p.child n), m) := mapError_eq_ok.mpr (readE_eq_ok.mpr ⟨hpath, rfl⟩)
      refine returns_bind.mpr ⟨true, m, read_eq_ok.mpr ⟨hhas, rfl⟩, ?_⟩
      rw [if_pos rfl]
      refine returns_bind.mpr ⟨_, m, hsrc, ?_⟩
      exact returns_bind.mpr ⟨u, m₁, mapError_eq_ok.mpr hcopied, returns_pure _ _⟩

/-- **When the copy loop returns**: every tree that is to be written fits over what is there. -/
theorem provisionSkills_returns (h : CopyReady P ws R m) (skills : List String) :
    Returns (provisionSkills P ws user (P.destRoot ws) skills result) m ↔
      ∀ s ∈ skills.filter (P.effective ws user m),
        FitsOver P.depths.copytree s (P.source.tree m s) (m.disk.treeAt (R ++ [s])) := by
  induction skills generalizing result m with
  | nil => exact iff_of_true (returns_pure _ _) nofun
  | cons skill skills ih =>
    have hfirst : Returns (provisionSkill P ws user (P.destRoot ws) result skill) m ↔ _ :=
      provisionSkill_returns h skill
    -- what fitted before the first skill was written still fits, and conversely beside it
    have hrest : ∀ result₁ m₁,
        provisionSkill P ws user (P.destRoot ws) result skill m = (.ok result₁, m₁) →
        (Returns (provisionSkills P ws user (P.destRoot ws) skills result₁) m₁ ↔
          ∀ s ∈ skills.filter (P.effective ws user m),
            FitsOver P.depths.copytree s (P.source.tree m s) (m.disk.treeAt (R ++ [s]))) := by
      intro result₁ m₁ hok
      obtain ⟨written, hwritten, hlaid⟩ := provisionSkill_lays h.source h.leads h.noLinks hok
      rw [ih (h.after hok), h.effective_eq hlaid.sameOff]
      refine forall₂_congr fun s hs => ?_
      rw [h.source.tree_eq hlaid.sameOff]
      by_cases hin : s ∈ written
      · have heffective := (List.mem_filter.mp hs).2
        have hskill : s = skill := by
          rw [provisionSkill_headed hok, headed_provisioned] at hwritten
          rw [← List.append_cancel_left hwritten] at hin
          exact List.mem_singleton.mp (List.mem_filter.mp hin).1
        subst hskill
        have hfits := hfirst.mp ⟨result₁, m₁, hok⟩ heffective
        exact iff_of_true (hfits.again (hlaid.laid s hin)) hfits
      · rw [hlaid.other s hin]
    have hloop : Returns (provisionSkills P ws user (P.destRoot ws) (skill :: skills) result) m ↔
        _ := returns_bind
    rw [hloop, ← List.singleton_append, List.filter_append, List.forall_mem_append]
    constructor
    · rintro ⟨result₁, m₁, hok, hreturns⟩
      refine ⟨fun s hs => ?_, (hrest result₁ m₁ hok).mp hreturns⟩
      obtain ⟨hs, heffective⟩ := List.mem_filter.mp hs
      obtain rfl := List.mem_singleton.mp hs
      exact hfirst.mp ⟨result₁, m₁, hok⟩ heffective
    · rintro ⟨hfits, hothers⟩
      obtain ⟨result₁, m₁, hok⟩ := hfirst.mpr fun heffective =>
        hfits skill (List.mem_filter.mpr ⟨List.mem_singleton_self skill, heffective⟩)
      exact ⟨result₁, m₁, hok, (hrest result₁ m₁ hok).mpr hothers⟩

/-- **What the copy loop returns**: every skill under its heading. -/
theorem provisionSkills_headed (h : CopyReady P ws R m) (skills : List String)
    (hok : provisionSkills P ws user (P.destRoot ws) skills result m = (.ok result', m')) :
    result' = skills.foldl (headed P ws user m) result := by
  induction skills generalizing result m with
  | nil =>
    cases hok
    rfl
  | cons skill skills ih =>
    obtain ⟨result₁, m₁, hskill, hrest⟩ := bind_eq_ok.mp hok
    obtain ⟨_, -, hlaid⟩ := provisionSkill_lays h.source h.leads h.noLinks hskill
    rw [ih (h.after hskill) hrest, h.headed_eq hlaid.sameOff, provisionSkill_headed hskill,
      List.foldl_cons]

end Headings

/-! ## The removal loop, when it returns -/

section Revoking

variable {depth : Nat} {dest : PosixPath} {R : Location} {m m' : Machine C}
  {revoked revoked' : List String}

/-- **When the removal loop returns**, on a path that still leads to `R` without what is removed:
no directory that is removed is too deep. -/
theorem revokeSkills_returns (skills : List String) (hnodup : skills.Nodup)
    (hnames : ∀ s ∈ skills, isEntryName s = true) (hcalm : Calm m) (hlinks : NoLinks m R)
    (hroot : Leads (m.without R (dirsAmong m R skills)) dest R) :
    (∃ revoked' m', revokeSkills depth dest R skills revoked m = (.ok revoked', m') ∧
        Leads m' dest R) ↔
      ∀ s ∈ dirsAmong m R skills, Shallow depth (m.disk.treeAt (R ++ [s])) := by
  induction skills generalizing revoked m with
  | nil => exact iff_of_true ⟨revoked, m, rfl, hroot⟩ nofun
  | cons skill skills ih =>
    obtain ⟨hnew, hnodup⟩ := List.nodup_cons.mp hnodup
    have hrest := fun s hs => hnames s (List.mem_cons_of_mem skill hs)
    have hshrinks := (Removed.without R (dirsAmong m R (skill :: skills)) m).shrinks
    have hleads : Leads m dest R :=
      leads_of_shrinks hshrinks (hshrinks.entries R _ hroot.dir) hroot.found
    have hstep : ∀ revoked₁ m₁, Calm m₁ → Removed R (dirsAmong m R [skill]) m m₁ →
        ((∃ revoked' m', revokeSkills depth dest R skills revoked₁ m₁ = (.ok revoked', m') ∧
            Leads m' dest R) ↔
          ∀ s ∈ dirsAmong m R skills, Shallow depth (m.disk.treeAt (R ++ [s]))) := by
      intro revoked₁ m₁ hcalm₁ hremoved
      have hsame := dirsAmong_rest hnew hremoved
      have hboth := hremoved.trans (Removed.without R (dirsAmong m R skills) m₁)
      rw [← dirsAmong_cons] at hboth
      rw [ih hnodup hrest hcalm₁ (hlinks.mono fun p target => hremoved.shrinks.entries p _)
        (by rw [hsame]; exact (Removed.without R _ m).leads hboth hroot), hsame]
      refine forall₂_congr fun s hs => ?_
      rw [hremoved.treeAt_eq fun hs' => ?_]
      rw [List.mem_singleton.mp (mem_dirsAmong.mp hs').1] at hs
      exact hnew (mem_dirsAmong.mp hs).1
    rw [dirsAmong_cons, List.forall_mem_append]
    by_cases hdir : m.disk.get? (R ++ [skill]) = some .dir
    · rw [dirsAmong_pos hdir, List.forall_mem_singleton, ← rmtree_returns depth hcalm hdir]
      constructor
      · rintro ⟨revoked', m', hok, hend⟩
        obtain ⟨revoked₁, m₁, hok, hreturned⟩ := bind_eq_ok.mp hok
        obtain ⟨-, hremoved⟩ := revokeSkill_outcome hleads (hnames skill List.mem_cons_self) hlinks hok
        rw [revokeSkill_dir hleads hdir] at hok
        obtain ⟨u, m₂, hremove, hend⟩ := bind_eq_ok.mp hok
        cases hend
        have hremove := mapError_eq_ok.mp hremove
        refine ⟨⟨u, _, hremove⟩, (hstep _ _ ?_ hremoved).mp ⟨revoked', m', hreturned, hend⟩⟩
        exact (rmtree_keeps fun _ q _ _ _ => calm_cuts q).of_eq hcalm hremove
      · rintro ⟨⟨u, m₁, hremove⟩, hothers⟩
        have hok : revokeSkill depth dest R revoked skill m = (.ok (revoked ++ [skill]), m₁) := by
          rw [revokeSkill_dir hleads hdir]
          exact bind_eq_ok.mpr ⟨u, m₁, mapError_eq_ok.mpr hremove, rfl⟩
        obtain ⟨-, hremoved⟩ := revokeSkill_outcome hleads (hnames skill List.mem_cons_self) hlinks hok
        have hcalm₁ : Calm m₁ := (rmtree_keeps fun _ q _ _ _ => calm_cuts q).of_eq hcalm hremove
        obtain ⟨revoked', m', hreturned, hend⟩ := (hstep _ _ hcalm₁ hremoved).mpr hothers
        exact ⟨revoked', m', bind_eq_ok.mpr ⟨_, m₁, hok, hreturned⟩, hend⟩
    · have hskip : revokeSkill depth dest R revoked skill m = (.ok revoked, m) :=
        revokeSkill_skips hleads (hnames skill List.mem_cons_self)
          (hlinks _ (List.prefix_append R [skill])) hdir
      have hnone : Removed R (dirsAmong m R [skill]) m m := by
        rw [dirsAmong_neg hdir]
        exact .refl R m
      have hloop : revokeSkills depth dest R (skill :: skills) revoked m =
          revokeSkills depth dest R skills revoked m := bind_of_ok hskip
      rw [hloop, hstep revoked m hcalm hnone, dirsAmong_neg hdir]
      exact ⟨fun hothers => ⟨nofun, hothers⟩, fun hboth => hboth.2⟩

end Revoking

/-! ## Reading the manifest -/

/-- What `_read_manifest` makes of a manifest's content. -/
def JsonFile.managed (json : JsonFile C) (content : C) : Except PyError (Finset String) :=
  match json.load content with
  | .error e => if e.kind = .jsonDecodeError then .ok ∅ else .error e
  | .ok data => readManaged data

/-- The names in what is well-formed of a document: the valid ones in its list `managed`. -/
def wellFormedNames : Json → Finset String
  | .obj members =>
    match Json.getD members "managed" (.arr []) with
    | .arr entries => managedNames entries
    | _ => ∅
  | _ => ∅

/-- The names in what is well-formed of a manifest. -/
def JsonFile.wellFormed (json : JsonFile C) (content : C) : Finset String :=
  match json.load content with
  | .ok data => wellFormedNames data
  | .error _ => ∅

/-- What may stand under `managed`: a list, or a text or object to iterate over of which only
`spare` names are valid. -/
def TolerableNames (spare : String → Prop) : Json → Prop
  | .arr _ => True
  | .str text => ∀ c ∈ text.toList, isPlainName (String.singleton c) = true →
      spare (String.singleton c)
  | .obj members => ∀ key ∈ members.map Prod.fst, isPlainName key = true → spare key
  | _ => False

/-- A document that may stand in a manifest: an object with such a `managed`, or without one. -/
def Tolerable (spare : String → Prop) : Json → Prop
  | .obj members => TolerableNames spare (Json.getD members "managed" (.arr []))
  | _ => False

/-- A content that may stand in a manifest: such a document, or what is no JSON. -/
def JsonFile.Tolerates (json : JsonFile C) (spare : String → Prop) (content : C) : Prop :=
  match json.load content with
  | .ok data => Tolerable spare data
  | .error e => e.kind = .jsonDecodeError

section Reading

variable {json : JsonFile C} {content : C} {spare : String → Prop} {names : Finset String}

theorem wellFormedNames_plain (data : Json) : ∀ s ∈ wellFormedNames data, isPlainName s = true := by
  intro s hs
  unfold wellFormedNames at hs
  split at hs
  · split at hs
    · exact (mem_managedNames.mp hs).2
    · cases hs
  · cases hs

theorem JsonFile.wellFormed_plain (json : JsonFile C) (content : C) :
    ∀ s ∈ json.wellFormed content, isPlainName s = true := by
  intro s hs
  unfold JsonFile.wellFormed at hs
  split at hs
  · exact wellFormedNames_plain _ s hs
  · cases hs

/-- What may stand under `managed` is what the loop gets through, and takes no name that counts
out of another place than a list. -/
theorem tolerableNames_iff {value : Json} :
    TolerableNames spare value ↔ ∃ entries, value.iterate = .ok entries ∧
      ((∃ items, value = .arr items) ∨ ∀ s ∈ managedNames entries, spare s) := by
  cases value with
  | arr items => exact iff_of_true trivial ⟨items, rfl, .inl ⟨items, rfl⟩⟩
  | str text =>
    constructor
    · refine fun h => ⟨_, rfl, .inr fun s hs => ?_⟩
      obtain ⟨hs, hplain⟩ := mem_managedNames.mp hs
      obtain ⟨c, hc, heq⟩ := List.mem_map.mp hs
      cases heq
      exact h c hc hplain
    · rintro ⟨entries, hentries, ⟨items, harr⟩ | h⟩ c hc hplain
      · cases harr
      · cases hentries
        exact h _ (mem_managedNames.mpr ⟨List.mem_map_of_mem hc, hplain⟩)
  | obj members =>
    constructor
    · refine fun h => ⟨_, rfl, .inr fun s hs => ?_⟩
      obtain ⟨hs, hplain⟩ := mem_managedNames.mp hs
      obtain ⟨member, hmember, heq⟩ := List.mem_map.mp hs
      cases heq
      exact h _ (List.mem_map_of_mem hmember) hplain
    · rintro ⟨entries, hentries, ⟨items, harr⟩ | h⟩ key hkey hplain
      · cases harr
      · cases hentries
        obtain ⟨member, hmember, rfl⟩ := List.mem_map.mp hkey
        exact h _ (mem_managedNames.mpr ⟨List.mem_map.mpr ⟨member, hmember, rfl⟩, hplain⟩)
  | _ => exact iff_of_false id fun ⟨_, h, _⟩ => by cases h

/-- **What may stand in a manifest** is what is read, with no name that counts beside the
well-formed ones. -/
theorem JsonFile.tolerates_iff : json.Tolerates spare content ↔
    ∃ names, json.managed content = .ok names ∧ ∀ s ∈ names, s ∈ json.wellFormed content ∨ spare s := by
  unfold JsonFile.Tolerates JsonFile.managed JsonFile.wellFormed
  cases json.load content with
  | error e =>
    dsimp only
    constructor
    · intro h
      exact ⟨∅, if_pos h, fun s hs => absurd hs (Finset.notMem_empty s)⟩
    · rintro ⟨names, hnames, -⟩
      split at hnames
      next h => exact h
      · cases hnames
  | ok data =>
    cases data with
    | obj members =>
      dsimp only [Tolerable, wellFormedNames, readManaged, Json.members?]
      rw [tolerableNames_iff]
      constructor
      · rintro ⟨entries, hentries, hrest⟩
        refine ⟨managedNames entries, except_bind_eq_ok.mpr ⟨entries, hentries, rfl⟩, fun s hs => ?_⟩
        rcases hrest with ⟨items, harr⟩ | hspare
        · rw [harr] at hentries ⊢
          cases hentries
          exact .inl hs
        · exact .inr (hspare s hs)
      · rintro ⟨names, hnames, hrest⟩
        obtain ⟨entries, hentries, hok⟩ := except_bind_eq_ok.mp hnames
        cases hok
        refine ⟨entries, hentries, ?_⟩
        by_cases harr : ∃ items, Json.getD members "managed" (.arr []) = .arr items
        · exact .inl harr
        · refine .inr fun s hs => (hrest s hs).resolve_left fun hin => ?_
          split at hin
          next items h => exact harr ⟨items, h⟩
          · cases hin
    | _ => exact iff_of_false id fun ⟨_, h, _⟩ => by cases h

/-- The well-formed names are read, if anything is. -/
theorem JsonFile.wellFormed_subset (hread : json.managed content = .ok names) :
    json.wellFormed content ⊆ names := by
  unfold JsonFile.managed at hread
  unfold JsonFile.wellFormed
  cases hload : json.load content with
  | error e => exact Finset.empty_subset _
  | ok data =>
    rw [hload] at hread
    cases data with
    | obj members =>
      obtain ⟨entries, hentries, hok⟩ := except_bind_eq_ok.mp hread
      cases hok
      unfold wellFormedNames
      dsimp only
      split
      next items h =>
        rw [h] at hentries
        cases hentries
        exact Finset.Subset.refl _
      · exact Finset.empty_subset _
    | _ => cases hread

/-- What the manifest of a skills directory is read as. -/
def storedNames (json : JsonFile C) (R : Location) (m : Machine C) :
    Except PyError (Finset String) :=
  match m.disk.get? (R ++ [manifestFile]) with
  | some (.file content) => json.managed content
  | _ => .ok ∅

theorem isEntryName_manifestFile : isEntryName manifestFile = true := by decide

/-- **Reading the manifest**, which is a file or not there. -/
theorem readManifest_calm {m : Machine C} {dest : PosixPath} {R : Location} (hcalm : Calm m)
    (hroot : Leads m dest R) (hlinks : NoLinks m R)
    (hnodir : m.disk.get? (R ++ [manifestFile]) ≠ some .dir) :
    (readManifest json dest m).1 = (storedNames json R m).mapError .py := by
  have hnolink : ∀ target, m.disk.get? (R ++ [manifestFile]) ≠ some (.link target) :=
    hlinks _ (List.prefix_append R _)
  have hlook := hroot.goesOn.lookup_plain isEntryName_manifestFile hnolink
  unfold storedNames
  cases hentry : m.disk.get? (R ++ [manifestFile]) with
  | none =>
    rw [if_pos hentry] at hlook
    have hopen : openRead (dest.child manifestFile) m = (.error .fileNotFound, m.next) := by
      refine (bind_of_ok hcalm.check).trans ?_
      simp only [readE, Machine.lookup_next, hlook]
    have hread : readFile (dest.child manifestFile) m = (.error .fileNotFound, m.next) :=
      bind_of_error hopen
    show (Act.bind _ _ m).1 = _
    simp only [Act.bind, Act.attempt, hread]
    rfl
  | some e =>
    cases e with
    | dir => exact absurd hentry hnodir
    | link target => exact absurd hentry (hnolink target)
    | file content =>
      rw [if_neg (by rw [hentry]; exact Option.some_ne_none _)] at hlook
      have hread : (readFile (dest.child manifestFile) m).1 = .ok content := by
        rcases readFile_found hlook hentry with ⟨n, fault, hfault, -⟩ | hread
        · rw [hcalm n] at hfault
          cases hfault
        · exact hread
      show (Act.bind _ _ m).1 = _
      simp only [Act.bind, Act.attempt, hread, JsonFile.managed]
      cases json.load content with
      | error e =>
        dsimp only
        split
        · rfl
        · rfl
      | ok data =>
        dsimp only
        generalize readManaged data = answer
        cases answer <;> rfl

end Reading

/-! ## One call -/

/-- The skills directory a call works on: ready for the copy loop, and the manifest in it is a file
or not there. -/
structure SkillsDir (P : SkillProvisioner C) (ws : ResolvedWorkspace) (R : Location)
    (m : Machine C) : Prop extends CopyReady P ws R m where
  manifest : m.disk.get? (R ++ [manifestFile]) ≠ some .dir

/-- The names a call is to write. -/
def SkillProvisioner.written (P : SkillProvisioner C) (ws : ResolvedWorkspace) (user : User)
    (m : Machine C) : List String := ws.allowedSkills.filter (P.effective ws user m)

/-- What a call that returned leaves of the disk, told by its result. -/
structure Leaves (json : JsonFile C) (tree : String → Posix.Tree C) (R : Location)
    (result : ProvisionResult) (m m' : Machine C) : Prop where
  sameOff : SameOff {R} m m'
  root : m'.disk.get? R = some .dir
  laid : ∀ s ∈ result.provisioned,
    LaidOver s (tree s) (m.disk.treeAt (R ++ [s])) (m'.disk.treeAt (R ++ [s]))
  gone : ∀ s, s ≠ manifestFile → s ∈ result.revoked → ∀ rel, m'.disk.treeAt (R ++ [s]) rel = none
  manifest : m'.disk.get? (R ++ [manifestFile]) =
    some (.file (json.dump (manifestOf (result.provisioned.toFinset.sort (· ≤ ·)))))
  other : ∀ s, s ≠ manifestFile → s ∉ result.provisioned → s ∉ result.revoked →
    m'.disk.treeAt (R ++ [s]) = m.disk.treeAt (R ++ [s])

/-- **A result and what was there determine the disk that a call leaves.** -/
theorem Leaves.unique {json : JsonFile C} {tree : String → Posix.Tree C} {R : Location}
    {result : ProvisionResult} {m₁ m₂ m₁' m₂' : Machine C}
    (h₁ : Leaves json tree R result m₁ m₁') (h₂ : Leaves json tree R result m₂ m₂')
    (htree : ∀ s rel target, tree s rel ≠ some (.link target))
    (hsame : ∀ q, ¬ R ++ [manifestFile] <+: q → m₂.disk.get? q = m₁.disk.get? q) (q : Location) :
    m₂'.disk.get? q = m₁'.disk.get? q := by
  by_cases hbelow : R <+: q
  · obtain ⟨rel, rfl⟩ := hbelow
    cases rel with
    | nil => rw [List.append_nil, h₁.root, h₂.root]
    | cons s rel =>
      by_cases hs : s = manifestFile
      · subst hs
        cases rel with
        | nil => rw [h₁.manifest, h₂.manifest]
        | cons name rel =>
          -- nothing stands below a file
          have hnone : ∀ {d : Disk C} {content : C},
              d.get? (R ++ [manifestFile]) = some (.file content) →
              d.get? (R ++ manifestFile :: name :: rel) = none := by
            intro d content hfile
            by_contra hsome
            obtain ⟨e, he⟩ := Option.ne_none_iff_exists'.mp hsome
            rw [List.append_cons] at he
            rw [Disk.ancestor_dir (List.cons_ne_nil name rel) he] at hfile
            cases hfile
          rw [hnone h₁.manifest, hnone h₂.manifest]
      · have hold : m₂.disk.treeAt (R ++ [s]) = m₁.disk.treeAt (R ++ [s]) := by
          funext rel
          refine hsame _ fun hpre => hs ?_
          exact entry_prefix_inj (List.prefix_append _ rel) hpre
        have hnew : m₂'.disk.treeAt (R ++ [s]) = m₁'.disk.treeAt (R ++ [s]) := by
          by_cases hprov : s ∈ result.provisioned
          · have hlaid := h₂.laid s hprov
            rw [hold] at hlaid
            exact hlaid.unique (h₁.laid s hprov) (htree s)
          · by_cases hrev : s ∈ result.revoked
            · funext rel
              rw [h₁.gone s hs hrev, h₂.gone s hs hrev]
            · rw [h₁.other s hs hprov hrev, h₂.other s hs hprov hrev, hold]
        rw [List.append_cons]
        exact congrFun hnew rel
  · have hoff : q ∈ Off {R} := fun place hplace => by rwa [Set.mem_singleton_iff.mp hplace]
    rw [h₁.sameOff.same q hoff, h₂.sameOff.same q hoff]
    exact hsame q fun hpre => hbelow ((List.prefix_append R _).trans hpre)

section Call

variable {P : SkillProvisioner C} {ws : ResolvedWorkspace} {user : User} {R : Location}
  {m m' m₂ m₃ : Machine C} {result : ProvisionResult} {prev : Finset String}

/-- The stages of a call leave what its result tells. -/
theorem CallStages.leaves (h : CallStages P ws R prev result m m₂ m₃ m') :
    Leaves P.json (P.source.tree m) R result m m' where
  sameOff := h.sameOff
  root := h.written.kept.dir h.leads.dir
  laid s hs := h.laidOver hs
  gone s hs hrevoked rel := by
    rw [treeAt_beside h.written hs]
    exact h.removed.gone s hrevoked _ (List.prefix_append _ rel)
  manifest := h.manifest
  other s hs hprov hrevoked := by
    rw [treeAt_beside h.written hs, h.removed.treeAt_eq hrevoked, h.laid.other s hprov]

/-- The directories among the outdated names are those that were there before. -/
theorem SkillsLaid.dirsAmong_outdated {tree : String → Posix.Tree C} {provisioned : List String}
    (h : SkillsLaid tree R provisioned m m₂) (prev : Finset String) :
    dirsAmong m₂ R (outdated prev provisioned) = dirsAmong m R (outdated prev provisioned) := by
  refine dirsAmong_congr fun s hs => ?_
  have hsame := congrFun (h.other s (mem_outdated.mp hs).2) []
  rwa [Disk.treeAt, Disk.treeAt, List.append_nil] at hsame

theorem CopyReady.of_sameDisk (h : CopyReady P ws R m) (hcalm : Calm m') (hsame : SameDisk m m') :
    CopyReady P ws R m' := h.congr hcalm (.of_disk hsame.1 hsame.2)

variable [Inhabited C]

/-- **What a call returns and leaves.** -/
theorem provisionOpened_outcome (h : SkillsDir P ws R m)
    (hok : P.provisionOpened ws user m = (.ok result, m')) :
    ∃ prev, storedNames P.json R m = .ok prev ∧
      result = { ws.allowedSkills.foldl (headed P ws user m) {} with
        revoked := dirsAmong m R (outdated prev (P.written ws user m)) } ∧
      Calm m' ∧ Leaves P.json (P.source.tree m) R result m m' := by
  obtain ⟨prev, m₁, copied, m₂, revoked, m₃, hread, hcopy, hrevoke, hresult, hstages⟩ :=
    provisionOpened_stages h.leads h.noLinks h.source hok
  have hsame : SameDisk m m₁ := readManifest_same.of_eq ⟨rfl, rfl⟩ hread
  have hcalm₁ : Calm m₁ := (readManifest_keeps (calm_writes (C := C)).tick _ _).of_eq h.calm hread
  have hready := h.toCopyReady.of_sameDisk hcalm₁ hsame
  have hcopied := provisionSkills_headed hready _ hcopy
  rw [h.headed_eq (.of_sameDisk hsame _)] at hcopied
  have hprov : copied.provisioned = P.written ws user m := by
    rw [hcopied, foldl_headed_provisioned]
    rfl
  have hstored : storedNames P.json R m = .ok prev := by
    have hanswer : (readManifest P.json (P.destRoot ws) m).1 = _ :=
      readManifest_calm h.calm h.leads h.noLinks h.manifest
    rw [hread] at hanswer
    generalize storedNames P.json R m = answer at hanswer ⊢
    cases answer <;> cases hanswer
    rfl
  have hrevoked : revoked = dirsAmong m R (outdated prev (P.written ws user m)) := by
    have hrevoked := hstages.revoked
    rw [hstages.laid.dirsAmong_outdated, hresult] at hrevoked
    rw [← hprov]
    exact hrevoked
  refine ⟨prev, hstored, by rw [hresult, hrevoked, hcopied], ?_, hstages.leaves⟩
  exact (provisionOpened_keeps calm_carries calm_cuts).of_eq h.calm hok

/-- **When a call returns**, in a skills directory whose manifest is read: it is not to write a skill
over the manifest, what it is to write fits, and what it is to remove is not too deep and not on
the way to the directory. -/
theorem provisionOpened_returns (h : SkillsDir P ws R m) (hread : storedNames P.json R m = .ok prev) :
    Returns (P.provisionOpened ws user) m ↔ manifestFile ∉ P.written ws user m ∧
      (∀ s ∈ P.written ws user m,
        FitsOver P.depths.copytree s (P.source.tree m s) (m.disk.treeAt (R ++ [s]))) ∧
      (∀ s ∈ dirsAmong m R (outdated prev (P.written ws user m)),
        Shallow P.depths.rmtree (m.disk.treeAt (R ++ [s]))) ∧
      Leads (m.without R (dirsAmong m R (outdated prev (P.written ws user m)))) (P.destRoot ws)
        R := by
  -- reading the manifest changes nothing, so what the copy loop needs is the same after it
  have hfits : ∀ m₁, Calm m₁ → SameDisk m m₁ →
      (Returns (provisionSkills P ws user (P.destRoot ws) ws.allowedSkills {}) m₁ ↔
        ∀ s ∈ P.written ws user m,
          FitsOver P.depths.copytree s (P.source.tree m s) (m.disk.treeAt (R ++ [s]))) := by
    intro m₁ hcalm₁ hsame
    have hoff : SameOff {R} m m₁ := .of_sameDisk hsame _
    rw [provisionSkills_returns (h.toCopyReady.of_sameDisk hcalm₁ hsame), h.effective_eq hoff,
      funext (h.source.tree_eq hoff), hsame.1]
    rfl
  have hshallow : ∀ {provisioned : List String} {m₂ : Machine C},
      SkillsLaid (P.source.tree m) R provisioned m m₂ →
      ((∀ s ∈ dirsAmong m₂ R (outdated prev provisioned),
        Shallow P.depths.rmtree (m₂.disk.treeAt (R ++ [s]))) ↔
      ∀ s ∈ dirsAmong m R (outdated prev provisioned),
        Shallow P.depths.rmtree (m.disk.treeAt (R ++ [s]))) := by
    intro provisioned m₂ hlaid
    rw [hlaid.dirsAmong_outdated]
    refine forall₂_congr fun s hs => ?_
    rw [hlaid.other s (mem_outdated.mp (mem_dirsAmong.mp hs).1).2]
  have hplain : ∀ {provisioned : List String} {m₁ : Machine C},
      readManifest P.json (P.destRoot ws) m = (.ok prev, m₁) →
      ∀ s ∈ outdated prev provisioned, isEntryName s = true := fun hok s hs =>
    isEntryName_of_isPlainName (readManifest_plain hok s (mem_outdated.mp hs).1)
  constructor
  · rintro ⟨result, m', hok⟩
    obtain ⟨prev', m₁, copied, m₂, revoked, m₃, hmanifest, hcopy, hrevoke, hresult, hstages⟩ :=
      provisionOpened_stages h.leads h.noLinks h.source hok
    obtain ⟨prev₁, hprev₁, hres, -⟩ := provisionOpened_outcome h hok
    obtain rfl : prev' = prev := by
      have hanswer : (readManifest P.json (P.destRoot ws) m).1 = _ :=
        readManifest_calm h.calm h.leads h.noLinks h.manifest
      rw [hmanifest, hread] at hanswer
      exact Except.ok.inj hanswer
    have hsame : SameDisk m m₁ := readManifest_same.of_eq ⟨rfl, rfl⟩ hmanifest
    have hcalm₁ : Calm m₁ :=
      (readManifest_keeps (calm_writes (C := C)).tick _ _).of_eq h.calm hmanifest
    have hcalm₂ : Calm m₂ := (provisionSkills_keeps calm_carries
      (fun _ _ _ _ => Set.mem_univ _) _ _ _).of_eq hcalm₁ hcopy
    have hprov : result.provisioned = P.written ws user m := by
      rw [hres]
      exact foldl_headed_provisioned _ _ _ _ _ _
    have hcopied : copied.provisioned = P.written ws user m := by
      rw [← hprov, hresult]
    have hlaid := hstages.laid
    have hrevoked := hstages.revoked
    have hleft := (hstages.removed.leads (.without R _ _) hstages.leads)
    rw [hprov] at hlaid hrevoked
    rw [hcopied] at hrevoke
    refine ⟨fun hin => ?_, (hfits m₁ hcalm₁ hsame).mp ⟨copied, m₂, hcopy⟩, ?_, ?_⟩
    · rw [← hprov] at hin
      exact hstages.ne_manifestFile hin rfl
    · rw [← hshallow hlaid]
      exact (revokeSkills_returns _ (outdated_nodup _ _) (hplain hmanifest) hcalm₂
        (h.noLinks.mono hlaid.expands.links) (hrevoked ▸ hleft)).mp
        ⟨revoked, m₃, hrevoke, hstages.leads⟩
    · rw [← hlaid.dirsAmong_outdated, ← hrevoked]
      exact h.leads.without hlaid.expands hstages.removed hstages.leads
  · rintro ⟨hname, hfit, hshallows, hrooted⟩
    have hmanifest : readManifest P.json (P.destRoot ws) m =
        (.ok prev, (readManifest P.json (P.destRoot ws) m).2) := by
      refine Prod.ext ?_ rfl
      rw [readManifest_calm h.calm h.leads h.noLinks h.manifest, hread]
      rfl
    generalize (readManifest P.json (P.destRoot ws) m).2 = m₁ at hmanifest
    have hsame : SameDisk m m₁ := readManifest_same.of_eq ⟨rfl, rfl⟩ hmanifest
    have hcalm₁ : Calm m₁ :=
      (readManifest_keeps (calm_writes (C := C)).tick _ _).of_eq h.calm hmanifest
    have hready := h.toCopyReady.of_sameDisk hcalm₁ hsame
    have hoff₁ : SameOff {R} m m₁ := .of_sameDisk hsame _
    obtain ⟨copied, m₂, hcopy⟩ := (hfits m₁ hcalm₁ hsame).mpr hfit
    have hcalm₂ : Calm m₂ := (provisionSkills_keeps calm_carries
      (fun _ _ _ _ => Set.mem_univ _) _ _ _).of_eq hcalm₁ hcopy
    obtain ⟨written, hwritten, hlaid⟩ :=
      provisionSkills_lay hready.source hready.leads hready.noLinks _ hcopy
    obtain rfl : copied.provisioned = written := hwritten
    have hcopied : copied.provisioned = P.written ws user m := by
      rw [provisionSkills_headed hready _ hcopy, h.headed_eq hoff₁]
      exact foldl_headed_provisioned _ _ _ _ _ _
    rw [funext (h.source.tree_eq hoff₁), hcopied] at hlaid
    have hlaid := hlaid.of_sameDisk hsame
    have hlinks₂ : NoLinks m₂ R := h.noLinks.mono hlaid.expands.links
    have hroot₂ := hlaid.expands.leads h.leads
    -- the outdated skills are removed
    rw [← hshallow hlaid] at hshallows
    rw [← hlaid.dirsAmong_outdated] at hrooted
    obtain ⟨revoked, m₃, hrevoke, hroot₃⟩ : ∃ revoked m₃,
        revokeSkills P.depths.rmtree (P.destRoot ws) R
          (outdated prev (P.written ws user m)) [] m₂ = (.ok revoked, m₃) ∧
          Leads m₃ (P.destRoot ws) R :=
      (revokeSkills_returns _ (outdated_nodup _ _) (hplain hmanifest) hcalm₂ hlinks₂
        (hrooted.removed hlaid.expands (.without R _ m₂))).mpr hshallows
    obtain ⟨-, hremoved⟩ := revokeSkills_outcome _ (outdated_nodup _ _) (hplain hmanifest)
      hroot₂.dir hlinks₂ hrevoke hroot₃.found
    have hcalm₃ : Calm m₃ := (revokeSkills_keeps calm_cuts _ R _ _).of_eq hcalm₂ hrevoke
    -- and the manifest is written
    have hslot : Slot m₃ (P.destRoot ws) R manifestFile := ⟨hroot₃, by decide,
      fun p hp target ht => hlinks₂ p ((List.prefix_append R _).trans hp) target
        (hremoved.shrinks.entries p _ ht)⟩
    have hnodir : m₃.disk.get? (R ++ [manifestFile]) ≠ some .dir := by
      intro hdir
      have hbefore := congrFun (hlaid.other manifestFile hname) []
      rw [Disk.treeAt, Disk.treeAt, List.append_nil, hremoved.shrinks.entries _ _ hdir] at hbefore
      exact h.manifest hbefore.symm
    obtain ⟨u, m', hwrite⟩ := (writeFile_slot_returns hslot hcalm₃.ahead
      (P.json.dump (manifestOf (copied.provisioned.toFinset.sort (· ≤ ·))))).mpr hnodir
    rw [← hcopied] at hrevoke
    exact ⟨_, m', provisionOpened_eq_ok.mpr ⟨prev, m₁, copied, m₂, R, revoked, m₃, hmanifest, hcopy,
      realpath_of_lookup hroot₂.found, hrevoke, mapError_eq_ok.mpr hwrite, rfl⟩⟩

end Call

/-! ## Calls that nothing stops -/

/-- The machine once `dest_root` is made. -/
def SkillProvisioner.opened (P : SkillProvisioner C) (ws : ResolvedWorkspace) (m : Machine C) :
    Machine C := (makedirs P.depths.makedirs (P.destRoot ws) m).2

/-- The names in what is well-formed of the manifest there is. -/
def storedWellFormed (json : JsonFile C) (R : Location) (m : Machine C) : Finset String :=
  match m.disk.get? (R ++ [manifestFile]) with
  | some (.file content) => json.wellFormed content
  | _ => ∅

/-- The machine with what is well-formed of the manifest there is, and nothing else, in it. -/
def cleared (json : JsonFile C) (R : Location) (m : Machine C) : Machine C :=
  match m.disk.get? (R ++ [manifestFile]) with
  | some (.file content) =>
    { m with
      disk := m.disk.put (R ++ [manifestFile])
        (.file (json.manifest (json.wellFormed content))) }
  | _ => m

/-- The directories a call is to remove, by what is well-formed of the manifest. -/
def SkillProvisioner.toRemove (P : SkillProvisioner C) (ws : ResolvedWorkspace) (user : User)
    (R : Location) (m : Machine C) : List String :=
  dirsAmong m R (outdated (storedWellFormed P.json R m) (P.written ws user m))

/-- The call is not stopped: it returns, what it returns and leaves is what it would if nothing
malformed were in the manifest, and the next call reads back what it provisioned. -/
def Unblocked [Inhabited C] (P : SkillProvisioner C) (ws : ResolvedWorkspace) (user : User)
    (R : Location) (m : Machine C) : Prop :=
  ∃ result m', P.provision ws user m = (.ok result, m') ∧
    (∃ m'', P.provision ws user (cleared P.json R (P.opened ws m)) = (.ok result, m'') ∧
      ∀ q, m''.disk.get? q = m'.disk.get? q) ∧
    ∀ m₁, SameDisk m' m₁ → Calm m₁ →
      (readManifest P.json (P.destRoot ws) m₁).1 = .ok result.provisioned.toFinset

/-- **What lets a call through.** The manifest is no JSON, or an object whose `managed` is a list, is
missing, or is a text or object in which no valid name counts: it is written anyway, or no directory
has it. No skill that is to be written is named like the manifest. Each of their trees fits over
what is there. What is to be removed is not too deep, nor on the way to the directory. -/
structure Admits (P : SkillProvisioner C) (ws : ResolvedWorkspace) (user : User) (R : Location)
    (m : Machine C) : Prop where
  tolerates : ∀ content, m.disk.get? (R ++ [manifestFile]) = some (.file content) →
    P.json.Tolerates (fun s => s ∈ P.written ws user m ∨ m.disk.get? (R ++ [s]) ≠ some .dir) content
  name : manifestFile ∉ P.written ws user m
  fits : ∀ s ∈ P.written ws user m,
    FitsOver P.depths.copytree s (P.source.tree m s) (m.disk.treeAt (R ++ [s]))
  shallow : ∀ s ∈ P.toRemove ws user R m, Shallow P.depths.rmtree (m.disk.treeAt (R ++ [s]))
  rooted : Leads (m.without R (P.toRemove ws user R m)) (P.destRoot ws) R

section Through

variable {P : SkillProvisioner C} {ws : ResolvedWorkspace} {user : User} {R : Location}
  {m m' : Machine C} {json : JsonFile C} {names names' : Finset String} {provisioned : List String}

/-- Sorted directories are the same where the same names are among them. -/
theorem dirsAmong_outdated_congr
    (h : ∀ s, s ∉ provisioned → m.disk.get? (R ++ [s]) = some .dir → (s ∈ names ↔ s ∈ names')) :
    dirsAmong m R (outdated names provisioned) = dirsAmong m R (outdated names' provisioned) := by
  have hsorted : ∀ ns : Finset String,
      (dirsAmong m R (outdated ns provisioned)).Pairwise (· ≤ ·) := fun ns =>
    (Finset.pairwise_sort _ _).filter _
  have hnodup : ∀ ns : Finset String, (dirsAmong m R (outdated ns provisioned)).Nodup := fun ns =>
    (outdated_nodup _ _).filter _
  have hperm : (dirsAmong m R (outdated names provisioned)).Perm
      (dirsAmong m R (outdated names' provisioned)) := by
    refine (List.perm_ext_iff_of_nodup (hnodup _) (hnodup _)).mpr fun s => ?_
    simp only [mem_dirsAmong, mem_outdated]
    constructor
    · rintro ⟨⟨hs, hout⟩, hdir⟩
      exact ⟨⟨(h s hout hdir).mp hs, hout⟩, hdir⟩
    · rintro ⟨⟨hs, hout⟩, hdir⟩
      exact ⟨⟨(h s hout hdir).mpr hs, hout⟩, hdir⟩
  exact hperm.eq_of_pairwise (fun _ _ _ _ => le_antisymm) (hsorted _) (hsorted _)

/-- **What may stand in the manifest** is what is read, with the same directories to remove as what
is well-formed of it has. -/
theorem tolerates_iff_toRemove : (∀ content, m.disk.get? (R ++ [manifestFile]) = some (.file content) →
      P.json.Tolerates (fun s => s ∈ P.written ws user m ∨ m.disk.get? (R ++ [s]) ≠ some .dir)
        content) ↔
    ∃ prev, storedNames P.json R m = .ok prev ∧
      dirsAmong m R (outdated prev (P.written ws user m)) = P.toRemove ws user R m := by
  unfold SkillProvisioner.toRemove storedNames storedWellFormed
  cases hentry : m.disk.get? (R ++ [manifestFile]) with
  | none => exact iff_of_true nofun ⟨∅, rfl, rfl⟩
  | some e =>
    cases e with
    | dir => exact iff_of_true nofun ⟨∅, rfl, rfl⟩
    | link target => exact iff_of_true nofun ⟨∅, rfl, rfl⟩
    | file content =>
      constructor
      · intro h
        obtain ⟨names, hnames, hspare⟩ := JsonFile.tolerates_iff.mp (h content rfl)
        refine ⟨names, hnames, dirsAmong_outdated_congr fun s hout hdir => ?_⟩
        refine ⟨fun hs => (hspare s hs).resolve_right ?_, fun hs => P.json.wellFormed_subset hnames hs⟩
        rintro (hin | hnodir)
        · exact hout hin
        · exact hnodir hdir
      · rintro ⟨names, hnames, hsame⟩ content' hcontent
        cases hcontent
        refine JsonFile.tolerates_iff.mpr ⟨names, hnames, fun s hs => ?_⟩
        by_cases hspare : s ∈ P.written ws user m ∨ m.disk.get? (R ++ [s]) ≠ some .dir
        · exact .inr hspare
        · rw [not_or, not_not] at hspare
          have hin : s ∈ dirsAmong m R (outdated names (P.written ws user m)) :=
            mem_dirsAmong.mpr ⟨mem_outdated.mpr ⟨hs, hspare.1⟩, hspare.2⟩
          rw [hsame] at hin
          exact .inl (mem_outdated.mp (mem_dirsAmong.mp hin).1).1

/-! ### Another manifest -/

theorem storedWellFormed_plain (json : JsonFile C) (R : Location) (m : Machine C) :
    ∀ s ∈ storedWellFormed json R m, isPlainName s = true := by
  intro s hs
  unfold storedWellFormed at hs
  split at hs
  · exact json.wellFormed_plain _ s hs
  · cases hs

theorem cleared_cases (json : JsonFile C) (R : Location) (m : Machine C) :
    cleared json R m = m ∧ storedNames json R m = .ok ∅ ∧ storedWellFormed json R m = ∅ ∨
      ∃ content, m.disk.get? (R ++ [manifestFile]) = some (.file content) ∧
        cleared json R m = { m with
          disk := m.disk.put (R ++ [manifestFile])
            (.file (json.dump (manifestOf ((storedWellFormed json R m).sort (· ≤ ·))))) } := by
  unfold cleared storedNames storedWellFormed
  cases hentry : m.disk.get? (R ++ [manifestFile]) with
  | none => exact .inl ⟨rfl, rfl, rfl⟩
  | some e =>
    cases e with
    | dir => exact .inl ⟨rfl, rfl, rfl⟩
    | link target => exact .inl ⟨rfl, rfl, rfl⟩
    | file content => exact .inr ⟨content, rfl, rfl⟩

/-- Only the manifest differs. -/
theorem cleared_same (json : JsonFile C) (R : Location) (m : Machine C) {q : Location}
    (hq : ¬ R ++ [manifestFile] <+: q) : (cleared json R m).disk.get? q = m.disk.get? q := by
  rcases cleared_cases json R m with ⟨hsame, -, -⟩ | ⟨content, hfile, hcleared⟩
  · rw [hsame]
  · rw [hcleared]
    refine Disk.get?_put_of_ne ?_ _
    rintro rfl
    exact hq List.prefix_rfl

theorem cleared_expands (json : JsonFile C) (R : Location) (m : Machine C) :
    Expands (Outside R) m (cleared json R m) := by
  rcases cleared_cases json R m with ⟨hsame, -, -⟩ | ⟨content, hfile, hcleared⟩
  · rw [hsame]
    exact .refl _ m
  · rw [hcleared]
    refine ⟨(Spares.refl _ m).put (fun hout => hout (below_entry List.prefix_rfl)) rfl, ?_⟩
    refine .put_file (fun target hlink => ?_) _
    rw [hfile] at hlink
    cases hlink

/-- What is well-formed of a manifest is what is read from it once it is cleared. -/
theorem storedNames_cleared (json : JsonFile C) (R : Location) (m : Machine C) :
    storedNames json R (cleared json R m) = .ok (storedWellFormed json R m) := by
  rcases cleared_cases json R m with ⟨hsame, hread, hnone⟩ | ⟨content, hfile, hcleared⟩
  · rw [hsame, hread, hnone]
  · have hplain := storedWellFormed_plain json R m
    have hload := json.load_dump ((storedWellFormed json R m).sort (· ≤ ·))
      fun s hs => hplain s ((Finset.mem_sort _).mp hs)
    have hentry : (cleared json R m).disk.get? (R ++ [manifestFile]) = some (.file (json.dump
        (manifestOf ((storedWellFormed json R m).sort (· ≤ ·))))) := by
      rw [hcleared]
      exact (Disk.get?_put (Disk.canPut_of_file hfile) _ _).trans (if_pos rfl)
    simp only [storedNames, hentry, JsonFile.managed, hload, readManaged_manifestOf,
      managedNames_sort hplain]

/-- A skills directory with another manifest is one, and the call has the same to do. -/
structure Twin (P : SkillProvisioner C) (ws : ResolvedWorkspace) (user : User) (R : Location)
    (m m' : Machine C) : Prop where
  dir : SkillsDir P ws R m'
  expands : Expands (Outside R) m m'
  same : ∀ q, ¬ R ++ [manifestFile] <+: q → m'.disk.get? q = m.disk.get? q

namespace Twin

theorem sameOff (h : Twin P ws user R m m') : SameOff {R} m m' := h.expands.sameOutside.sameOff

theorem written (h : Twin P ws user R m m') (hm : SkillsDir P ws R m) :
    P.written ws user m' = P.written ws user m := by
  unfold SkillProvisioner.written
  rw [hm.effective_eq h.sameOff]

theorem treeAt (h : Twin P ws user R m m') {s : String} (hs : s ≠ manifestFile) :
    m'.disk.treeAt (R ++ [s]) = m.disk.treeAt (R ++ [s]) := by
  funext rel
  refine h.same _ fun hpre => hs ?_
  exact entry_prefix_inj (List.prefix_append _ rel) hpre

theorem dirsAmong (h : Twin P ws user R m m') (hm : SkillsDir P ws R m) (names : List String) :
    Skills.dirsAmong m' R names = Skills.dirsAmong m R names := by
  refine List.filter_congr fun s _ => ?_
  rw [Bool.eq_iff_iff, Disk.isDirAt_iff, Disk.isDirAt_iff]
  by_cases hs : s = manifestFile
  · subst hs
    exact iff_of_false h.dir.manifest hm.manifest
  · have hsame := congrFun (h.treeAt hs) []
    rw [Disk.treeAt, Disk.treeAt, List.append_nil] at hsame
    rw [hsame]

end Twin

/-- A machine with the cleared manifest is a twin, once the directory was made again. -/
theorem SkillsDir.twin (h : SkillsDir P ws R m) (user : User) :
    Twin P ws user R m (cleared P.json R m).next := by
  have hexpands := cleared_expands P.json R m
  have hcalm : Calm (cleared P.json R m).next := by
    rcases cleared_cases P.json R m with ⟨hsame, -, -⟩ | ⟨content, -, hcleared⟩
    · rw [hsame]
      exact h.calm
    · rw [hcleared]
      exact h.calm
  have hexpands' : Expands (Outside R) m (cleared P.json R m).next :=
    hexpands.trans (.of_disk rfl rfl)
  refine ⟨⟨h.congr hcalm hexpands', fun hdir => ?_⟩, hexpands',
    fun q hq => cleared_same P.json R m hq⟩
  have hdir : (cleared P.json R m).disk.get? (R ++ [manifestFile]) = some .dir := hdir
  rcases cleared_cases P.json R m with ⟨hsame, -, -⟩ | ⟨content, hfile, hcleared⟩
  · rw [hsame] at hdir
    exact h.manifest hdir
  · obtain ⟨content', hkept⟩ := hexpands.kept.file hfile
    rw [hdir] at hkept
    cases hkept

variable [Inhabited C] {result : ProvisionResult} {prev prev' : Finset String}

/-- **With another manifest**, of which the same directories are to remove, a call returns and leaves
the same. -/
theorem provisionOpened_alike {m₁ : Machine C} (h : Twin P ws user R m m') (hm : SkillsDir P ws R m)
    (hread : storedNames P.json R m = .ok prev) (hread' : storedNames P.json R m' = .ok prev')
    (hlists : dirsAmong m R (outdated prev' (P.written ws user m)) =
      dirsAmong m R (outdated prev (P.written ws user m)))
    (hok : P.provisionOpened ws user m = (.ok result, m₁)) :
    ∃ m₂, P.provisionOpened ws user m' = (.ok result, m₂) ∧
      ∀ q, m₂.disk.get? q = m₁.disk.get? q := by
  obtain ⟨hname, hfits, hshallow, hrooted⟩ := (provisionOpened_returns hm hread).mp ⟨_, _, hok⟩
  have htree : P.source.tree m' = P.source.tree m := funext (hm.source.tree_eq h.sameOff)
  have hreturns : Returns (P.provisionOpened ws user) m' := by
    rw [provisionOpened_returns h.dir hread', h.written hm, h.dirsAmong hm, hlists, htree]
    refine ⟨hname, fun s hs => ?_, fun s hs => ?_, ?_⟩
    · rw [h.treeAt fun heq => hname (heq ▸ hs)]
      exact hfits s hs
    · rw [h.treeAt]
      · exact hshallow s hs
      · rintro rfl
        exact hm.manifest (mem_dirsAmong.mp hs).2
    · exact hrooted.removed h.expands (.without R _ m')
  obtain ⟨result', m₂, hok'⟩ := hreturns
  obtain ⟨_, hprev, hresult, -, hleaves⟩ := provisionOpened_outcome hm hok
  cases hread.symm.trans hprev
  obtain ⟨_, hprev', hresult', -, hleaves'⟩ := provisionOpened_outcome h.dir hok'
  cases hread'.symm.trans hprev'
  rw [h.written hm, h.dirsAmong hm, hlists, hm.headed_eq h.sameOff, ← hresult] at hresult'
  subst hresult'
  rw [htree] at hleaves'
  exact ⟨m₂, hok', hleaves.unique hleaves' (fun s => hm.source.tree_noLink s) h.same⟩

/-- A call is let through exactly if the manifest is read, with the directories to remove that
its well-formed part has, and the call returns. -/
theorem admits_iff (h : SkillsDir P ws R m) : Admits P ws user R m ↔
    ∃ prev, storedNames P.json R m = .ok prev ∧
      dirsAmong m R (outdated prev (P.written ws user m)) = P.toRemove ws user R m ∧
      Returns (P.provisionOpened ws user) m := by
  constructor
  · rintro ⟨htolerates, hname, hfits, hshallow, hrooted⟩
    obtain ⟨prev, hread, hlists⟩ := tolerates_iff_toRemove.mp htolerates
    refine ⟨prev, hread, hlists, (provisionOpened_returns h hread).mpr ?_⟩
    rw [hlists]
    exact ⟨hname, hfits, hshallow, hrooted⟩
  · rintro ⟨prev, hread, hlists, hreturns⟩
    have hall := (provisionOpened_returns h hread).mp hreturns
    rw [hlists] at hall
    obtain ⟨hname, hfits, hshallow, hrooted⟩ := hall
    exact ⟨tolerates_iff_toRemove.mpr ⟨prev, hread, hlists⟩, hname, hfits, hshallow, hrooted⟩

/-- The manifest that a call leaves is read as what it provisioned. -/
theorem manifest_reads_back {m₁ : Machine C} (h : SkillsDir P ws R m)
    (hok : P.provisionOpened ws user m = (.ok result, m')) (hsame : SameDisk m' m₁)
    (hcalm : Calm m₁) :
    (readManifest P.json (P.destRoot ws) m₁).1 = .ok result.provisioned.toFinset := by
  obtain ⟨_, _, _, _, _, _, -, -, -, -, hstages⟩ :=
    provisionOpened_stages h.leads h.noLinks h.source hok
  have hroot : Leads m₁ (P.destRoot ws) R :=
    (hstages.leads.ways hstages.written.kept.ways hstages.written.workdir).ways
      ⟨fun q hq => by rw [hsame.1, hq], fun q target hq => by rw [hsame.1, hq]⟩ hsame.2
  have hfile := hstages.manifest
  rw [← hsame.1] at hfile
  rcases readManifest_written hroot
    (fun s hs => hstages.laid.plain s (List.mem_toFinset.mp hs)) hfile with
    ⟨n, fault, hfault, -⟩ | hread
  · rw [hcalm n] at hfault
    cases hfault
  · exact hread

/-- **When nothing in the manifest and no skill's name stops a call**: the call returns, does as if
what is malformed in the manifest were absent, and leaves a manifest that reads as what it
provisioned, exactly if the manifest and the skills are such as to let it through. -/
theorem provision_unblocked_iff (hmade : (makedirs P.depths.makedirs (P.destRoot ws) m).1 = .ok ())
    (hdir : SkillsDir P ws R (P.opened ws m)) :
    Unblocked P ws user R m ↔ Admits P ws user R (P.opened ws m) := by
  have hopened : P.provision ws user m = P.provisionOpened ws user (P.opened ws m) := by
    have hok : (makedirs P.depths.makedirs (P.destRoot ws)).mapError ProvisionError.fs m =
        (.ok (), P.opened ws m) := mapError_eq_ok.mpr (Prod.ext hmade rfl)
    rw [provision_eq]
    exact bind_of_ok hok
  unfold Unblocked
  rw [hopened]
  generalize P.opened ws m = m₀ at hdir ⊢
  have htwin := hdir.twin user
  have hcleared : P.provision ws user (cleared P.json R m₀) =
      P.provisionOpened ws user (cleared P.json R m₀).next := by
    have hroot : Leads (cleared P.json R m₀) (P.destRoot ws) R :=
      (cleared_expands P.json R m₀).leads hdir.leads
    have hmakes : makedirs P.depths.makedirs (P.destRoot ws) (cleared P.json R m₀) =
        (.ok (), (cleared P.json R m₀).next) := by
      cases hdepth : P.depths.makedirs with
      | zero =>
        rw [hdepth] at hmade
        cases hmade
      | succ fuel => exact makedirs_leads_returns hroot fuel
    rw [provision_eq]
    exact bind_of_ok (mapError_eq_ok.mpr hmakes)
  have hread' : storedNames P.json R (cleared P.json R m₀).next =
      .ok (storedWellFormed P.json R m₀) := storedNames_cleared P.json R m₀
  rw [hcleared, admits_iff hdir]
  constructor
  · rintro ⟨result, m', hok, ⟨m'', hok', -⟩, -⟩
    obtain ⟨prev, hread, hresult, -, -⟩ := provisionOpened_outcome hdir hok
    obtain ⟨_, hprev', hresult', -, -⟩ := provisionOpened_outcome htwin.dir hok'
    cases hread'.symm.trans hprev'
    rw [htwin.written hdir, htwin.dirsAmong hdir] at hresult'
    have hlists := congrArg ProvisionResult.revoked (hresult.symm.trans hresult')
    exact ⟨prev, hread, hlists, result, m', hok⟩
  · rintro ⟨prev, hread, hlists, result, m', hok⟩
    obtain ⟨m'', hok', hsame⟩ := provisionOpened_alike htwin hdir hread hread' hlists.symm hok
    exact ⟨result, m', hok, ⟨m'', hok', hsame⟩, fun m₁ hm₁ hcalm =>
      manifest_reads_back hdir hok hm₁ hcalm⟩

end Through

/-! ## A source in a directory, without links -/

/-- Without links, none is broken. -/
theorem unbroken_of_noLinks {m : Machine C} {p : PosixPath}
    (hlinks : ∀ q target, m.disk.get? q ≠ some (.link target)) : Unbroken m p := by
  intro rel q name _ hleads hthere
  obtain ⟨e, he⟩ := Option.ne_none_iff_exists'.mp hthere
  have hlook := hleads.goesOn.lookup_plain (Disk.parent_dir he).2 (hlinks _)
  rw [if_neg hthere] at hlook
  rw [entryOf, hlook]
  exact hthere

/-- A `LocalDirSkillSource` can be read then. -/
theorem localDirSkillSource_reads {root : String} {m : Machine C}
    (hlinks : ∀ q target, m.disk.get? q ≠ some (.link target)) {s : String}
    (hs : (localDirSkillSource root : SkillSource C).hasSkill m s = true) :
    ∃ path, (localDirSkillSource root : SkillSource C).skillDir m s = .ok path ∧
      entryOf m path = some .dir ∧ Unbroken m path := by
  obtain ⟨hplain, hskill⟩ := Bool.and_eq_true_iff.mp hs
  refine ⟨(PosixPath.ofString root).child s, ?_, ?_, unbroken_of_noLinks hlinks⟩
  · simp only [localDirSkillSource, validateSkillName, hplain, if_true, hskill]
    rfl
  · exact (isdir_eq_entryOf m _).mp (Bool.and_eq_true_iff.mp hskill).1

/-- What it has does not depend on what is at or below `R` where no path of it leads there. -/
theorem localDirSkillSource_hasDir {root : String} {R : Location} {m m' : Machine C}
    (h : ∀ s, isPlainName s = true → Apart {R} m ((PosixPath.ofString root).child s))
    (hm : SameOff {R} m m') (s : String) :
    (localDirSkillSource root).hasDir m' s = (localDirSkillSource root).hasDir m s := by
  dsimp only [localDirSkillSource]
  cases hs : isPlainName s with
  | false => rfl
  | true =>
    have hentry := (h s hs).self.entryOf_eq (isEntryName_of_isPlainName hs) hm
    rw [Bool.true_and, Bool.true_and, Bool.eq_iff_iff, isdir_eq_entryOf, isdir_eq_entryOf, hentry]

/-- On a disk without links the tree of a location is no deeper than the disk. -/
theorem treeOf_depth {m : Machine C} {S : Location} {rel : List String} {n : Nat}
    (hlinks : ∀ q target, m.disk.get? q ≠ some (.link target))
    (hkeys : ∀ k ∈ m.disk.entries.keys, k.length ≤ n) (hS : ∀ name ∈ S, isEntryName name = true)
    (h : treeOf m ⟨true, S⟩ rel ≠ none) : S.length + rel.length ≤ n := by
  unfold treeOf at h
  split at h
  case isFalse => exact absurd rfl h
  case isTrue hrel =>
    have hnames : ∀ name ∈ S ++ rel, isEntryName name = true := fun name hname =>
      (List.mem_append.mp hname).elim (hS name) (List.all_eq_true.mp hrel name)
    have hspelled : Spelled m.disk [] (S ++ rel) (lookup m true ⟨true, S ++ rel⟩) :=
      walk_spelled m.disk.get?_root hnames fun q _ => hlinks q
    unfold entryOf at h
    rw [show PosixPath.descend ⟨true, S⟩ rel = ⟨true, S ++ rel⟩ from rfl] at h
    generalize lookup m true ⟨true, S ++ rel⟩ = out at hspelled h
    cases hspelled with
    | found he =>
      rw [← List.length_append]
      by_cases hnil : S ++ rel = []
      · rw [hnil]
        exact Nat.zero_le n
      · rw [List.nil_append] at he
        refine hkeys _ (Dict.mem_keys.mpr ?_)
        rw [← Disk.get?_of_ne_nil _ hnil, he]
        rfl
    | missing _ _ _ => exact absurd rfl h
    | error e => exact absurd rfl h

/-! ## Calls -/

/-- Manifests as the library reads them, the empty list among them. -/
def listFile : JsonFile (List Char) where
  dump := textFile.dump
  load text := if text = "[]".toList then .ok (.arr []) else textFile.load text
  load_dump managed h := by
    have hdump := textFile.load_dump managed h
    rw [if_neg fun heq => ?_]
    · exact hdump
    · rw [heq] at hdump
      exact absurd hdump nofun

/-- A disk with a manifest of this text in the skills directory. -/
def manifestDisk (text : String) : Disk (List Char) :=
  skillsDisk.put (skillsRoot ++ [manifestFile]) (.file text.toList)

theorem manifestDisk_noLinks (text : String) (p : Location) (target : String) :
    (manifestDisk text).get? p ≠ some (.link target) :=
  noLinks_put skillsDisk_noLinks _ rfl p target

/-- A provisioner that reads lists too, and a workspace with the skill `lint`. -/
def listProvisioner : SkillProvisioner (List Char) := { openProvisioner with json := listFile }

def lintWorkspace : ResolvedWorkspace := { skilledWorkspace with allowedSkills := ["lint"] }

/-- A call finds the skills directory on a disk without links that has it. -/
theorem skillsDir_of (ws : ResolvedWorkspace) (hcwd : ws.cwd = "/ws") (disk : Disk (List Char))
    (hlinks : ∀ p target, disk.get? p ≠ some (.link target))
    (hroot : disk.isDirAt skillsRoot = true)
    (hmanifest : disk.isDirAt (skillsRoot ++ [manifestFile]) = false) :
    (makedirs listProvisioner.depths.makedirs (listProvisioner.destRoot ws) { disk }).1 = .ok () ∧
      SkillsDir listProvisioner ws skillsRoot (listProvisioner.opened ws { disk }) ∧
      listProvisioner.opened ws { disk } = { disk, tick := 1 } := by
  have hdest : listProvisioner.destRoot ws = ⟨true, skillsRoot⟩ := by
    rw [SkillProvisioner.destRoot, hcwd]
    with_unfolding_all rfl
  have hleads : Leads { disk } (listProvisioner.destRoot ws) skillsRoot := by
    rw [hdest]
    exact ⟨Disk.isDirAt_iff.mp hroot, lookup_located (Disk.isDirAt_iff.mp hroot) rfl⟩
  have hmade : makedirs listProvisioner.depths.makedirs (listProvisioner.destRoot ws) { disk } =
      (.ok (), { disk, tick := 1 }) := makedirs_leads_returns hleads 899
  have hopened : listProvisioner.opened ws { disk } = { disk, tick := 1 } := by
    rw [SkillProvisioner.opened, hmade]
  have hready : CopyReady listProvisioner ws skillsRoot { disk } :=
    ⟨fun _ => rfl, hleads, fun p _ => hlinks p, openSource_apart hlinks,
      fun m' hm s => localDirSkillSource_hasDir (openSource_paths hlinks) hm s,
      fun s hs => localDirSkillSource_reads hlinks hs⟩
  refine ⟨by rw [hmade], ?_, hopened⟩
  rw [hopened]
  refine ⟨hready.of_sameDisk (fun _ => rfl) ⟨rfl, rfl⟩, fun hdir => ?_⟩
  have hdir : disk.isDirAt (skillsRoot ++ [manifestFile]) = true := Disk.isDirAt_iff.mpr hdir
  rw [hdir] at hmanifest
  cases hmanifest

/-- A call that is let through: the manifest is no JSON, and there is room for the skill. -/
theorem admits_lint : Admits listProvisioner lintWorkspace skilledUser skillsRoot
    { disk := manifestDisk "x", tick := 1 } := by
  have hload : listFile.load "x".toList =
      .error ⟨.jsonDecodeError, "Expecting value: line 1 column 1 (char 0)"⟩ := rfl
  have hfile : (manifestDisk "x").get? (skillsRoot ++ [manifestFile]) = some (.file "x".toList) :=
    (Disk.get?_put (by decide +kernel) _ _).trans (if_pos rfl)
  have hwritten : listProvisioner.written lintWorkspace skilledUser
      { disk := manifestDisk "x", tick := 1 } = ["lint"] := by decide +kernel
  have hnames : storedWellFormed listFile skillsRoot { disk := manifestDisk "x", tick := 1 } = ∅ := by
    simp only [storedWellFormed, hfile, JsonFile.wellFormed, hload]
  have hremove : listProvisioner.toRemove lintWorkspace skilledUser skillsRoot
      { disk := manifestDisk "x", tick := 1 } = [] := by
    refine List.eq_nil_iff_forall_not_mem.mpr fun s hs => ?_
    have hin := (mem_outdated.mp (mem_dirsAmong.mp hs).1).1
    rw [show listProvisioner.json = listFile from rfl, hnames] at hin
    exact absurd hin (Finset.notMem_empty s)
  have hnone : ∀ rel, (manifestDisk "x").treeAt (skillsRoot ++ ["lint"]) rel = none := by
    intro rel
    have habsent : (manifestDisk "x").get? (skillsRoot ++ ["lint"]) = none :=
      Option.isNone_iff_eq_none.mp (by decide +kernel)
    by_contra hsome
    obtain ⟨e, he⟩ := Option.ne_none_iff_exists'.mp hsome
    rcases eq_or_ne rel [] with rfl | hne
    · rw [Disk.treeAt, List.append_nil, habsent] at he
      cases he
    · rw [Disk.ancestor_dir hne he] at habsent
      cases habsent
  refine ⟨fun content hcontent => ?_, ?_, fun s hs => ?_, ?_, ?_⟩
  · cases hfile.symm.trans hcontent
    simp only [JsonFile.Tolerates, show listProvisioner.json = listFile from rfl, hload]
  · rw [hwritten]
    decide
  · rw [hwritten] at hs
    obtain rfl := List.mem_singleton.mp hs
    refine ⟨fun rel _ content h => ?_, fun rel content _ h => ?_, fun rel h => ?_⟩
    · rw [hnone] at h
      cases h
    · rw [hnone] at h
      cases h
    · have hpath : listProvisioner.source.skillDir { disk := manifestDisk "x", tick := 1 } "lint" =
          .ok ⟨true, ["src", "lint"]⟩ := by with_unfolding_all rfl
      rw [SkillSource.tree_of_ok hpath] at h
      have hkeys : ∀ k ∈ (manifestDisk "x").entries.keys, k.length ≤ 4 := by decide +kernel
      have hnames : ∀ name ∈ ["src", "lint"], isEntryName name = true := by decide
      have hfound : treeOf { disk := manifestDisk "x", tick := 1 } ⟨true, ["src", "lint"]⟩ rel ≠
          none := by
        rw [h]
        exact Option.some_ne_none _
      have hdepth := treeOf_depth (manifestDisk_noLinks "x") hkeys hnames hfound
      exact lt_of_le_of_lt (Nat.le_of_add_left_le hdepth) (by decide)
  · rw [hremove]
    exact fun s hs => absurd hs List.not_mem_nil
  · rw [hremove]
    have hdest : listProvisioner.destRoot lintWorkspace = ⟨true, skillsRoot⟩ := by
      with_unfolding_all rfl
    have hroot : (manifestDisk "x").get? skillsRoot = some .dir :=
      Disk.isDirAt_iff.mp (by decide +kernel)
    rw [hdest]
    exact ⟨hroot, lookup_located hroot rfl⟩

/-- Such a call is not stopped. -/
theorem provision_unblocked_lint :
    Unblocked listProvisioner lintWorkspace skilledUser skillsRoot { disk := manifestDisk "x" } := by
  obtain ⟨hmade, hdir, hopened⟩ := skillsDir_of lintWorkspace rfl (manifestDisk "x")
    (manifestDisk_noLinks "x") (by decide +kernel) (by decide +kernel)
  refine (provision_unblocked_iff hmade hdir).mpr ?_
  rw [hopened]
  exact admits_lint

/-- A disk whose source has a skill that is named like the manifest, which is no JSON. -/
def namesakeDisk : Disk (List Char) :=
  ((manifestDisk "x").put ["src", manifestFile] .dir).put ["src", manifestFile, "SKILL.md"]
    (.file "# skill".toList)

theorem namesakeDisk_noLinks (p : Location) (target : String) :
    namesakeDisk.get? p ≠ some (.link target) :=
  noLinks_put (noLinks_put (manifestDisk_noLinks "x") _ rfl) _ rfl p target

def namesakeWorkspace : ResolvedWorkspace := { skilledWorkspace with allowedSkills := [manifestFile] }

/-- A call on this disk is one that the directory is made for, and raises. -/
def Stopped (ws : ResolvedWorkspace) (disk : Disk (List Char)) : Prop :=
  (makedirs listProvisioner.depths.makedirs (listProvisioner.destRoot ws) { disk }).1 = .ok () ∧
    SkillsDir listProvisioner ws skillsRoot (listProvisioner.opened ws { disk }) ∧
    (listProvisioner.provision ws skilledUser { disk }).1.toOption = none

/-- **A manifest and a name that stop a call.** A manifest that is a list makes reading it raise, and
a skill that is named like the manifest cannot be copied over it. -/
theorem provision_blocked : Stopped lintWorkspace (manifestDisk "[]") ∧
    Stopped namesakeWorkspace namesakeDisk := by
  obtain ⟨hmade, hdir, -⟩ := skillsDir_of lintWorkspace rfl (manifestDisk "[]")
    (manifestDisk_noLinks "[]") (by decide +kernel) (by decide +kernel)
  obtain ⟨hmade', hdir', -⟩ := skillsDir_of namesakeWorkspace rfl namesakeDisk namesakeDisk_noLinks
    (by decide +kernel) (by decide +kernel)
  exact ⟨⟨hmade, hdir, by decide +kernel⟩, hmade', hdir', by decide +kernel⟩

end ClawEngine.Skills
