import ClawEngine.Skills.GitSource

/-!
# The stages of a refresh

A refresh that returns went through all of its stages. None of them but the last touches the source,
and the last binds it to one root: the overlay, if an allowed path is nested, and the cache
directory else. From then on the source answers for the directories in this root.
-/

set_option autoImplicit false

namespace ClawEngine.Skills

open ClawEngine.Core ClawEngine.Posix ClawEngine.Context

variable {C A B : Type} {host : GitHost C} {source : GitSkillSource}

/-! ## Where the source answers from -/

/-- Whether an allowed path is nested, so that there is an overlay. -/
def overlaid (source : GitSkillSource) : Bool :=
  match source.allowedSkillPaths with
  | some paths => paths.any (hasText "/")
  | none => false

/-- The root of the local source. -/
def skillRoot (source : GitSkillSource) : PosixPath :=
  if overlaid source then flatDirOf source else source.cacheDir

/-- The directory of a skill. -/
def skillPath (source : GitSkillSource) (name : String) : PosixPath :=
  (PosixPath.ofString (skillRoot source).text).child name

/-- The source with its root bound. -/
def bound (source : GitSkillSource) : GitSkillSource :=
  { source with localRoot := some (skillRoot source).text }

theorem skillPath_bound (source : GitSkillSource) (name : String) :
    skillPath (bound source) name = skillPath source name := rfl

/-- **A bound source answers for the directories in its root.** -/
theorem bound_reader (source : GitSkillSource) :
    ((bound source).reader : SkillSource C) = localDirSkillSource (skillRoot source).text := rfl

theorem bound_hasSkill {m : Machine C} {name : String} :
    (bound source).reader.hasSkill m name = true ↔
      isPlainName name = true ∧ isSkill m (skillPath source name) = true := Bool.and_eq_true_iff

theorem bound_skillDir_eq {m : Machine C} {name : String} :
    (bound source).reader.skillDir m name =
      if isPlainName name then
        if isSkill m (skillPath source name) then .ok (skillPath source name)
        else .error (.skillNotFound name)
      else .error (.invalidSkillName name) := by
  rw [bound_reader]
  unfold localDirSkillSource validateSkillName
  dsimp only
  by_cases hname : isPlainName name = true
  · rw [if_pos hname, if_pos hname]
    rfl
  · rw [if_neg hname, if_neg hname]
    rfl

/-- It answers with the directory of each skill it has. -/
theorem bound_skillDir {m : Machine C} {name : String} {p : PosixPath} :
    (bound source).reader.skillDir m name = .ok p ↔
      (bound source).reader.hasSkill m name = true ∧ p = skillPath source name := by
  rw [bound_hasSkill, bound_skillDir_eq]
  by_cases hname : isPlainName name = true
  · rw [if_pos hname]
    by_cases hskill : isSkill m (skillPath source name) = true
    · rw [if_pos hskill, Except.ok.injEq]
      exact ⟨fun heq => ⟨⟨hname, hskill⟩, heq.symm⟩, fun h => h.2.symm⟩
    · rw [if_neg hskill]
      exact ⟨nofun, fun h => absurd h.1.2 hskill⟩
  · rw [if_neg hname]
    exact ⟨nofun, fun h => absurd h.1.1 hname⟩

/-! ## The stages -/

/-- A refresh from `s` that returned `r` in `s'`, stage by stage. -/
structure Refreshed (host : GitHost C) (ref : Option String) (s : Refreshing C)
    (r : RefreshResult) (s' : Refreshing C) where
  made : Refreshing C
  cloned : Refreshing C
  sparse : Refreshing C
  checkedOut : Refreshing C
  paths : ∀ paths, (s.withRef ref).source.allowedSkillPaths = some paths →
    validateAllowedPaths host.py paths = .ok ()
  ensure : ensureCacheDir host (s.withRef ref).source (s.withRef ref) = (.ok (), made)
  clone : cloneMissing host (s.withRef ref).source made = (.ok (), cloned)
  setSparse : setSparse host (s.withRef ref).source cloned = (.ok (), sparse)
  checkOut : checkOut host (s.withRef ref).source sparse = (.ok r.ref, checkedOut)
  build : buildLocal host (s.withRef ref).source checkedOut = (.ok r.materializedPaths, s')

theorem refresh_eq_ok {ref : Option String} {s s' : Refreshing C} {r : RefreshResult}
    (h : refresh host ref s = (.ok r, s')) : Nonempty (Refreshed host ref s r s') := by
  obtain ⟨_, s₁, hrebind, h⟩ := Act.bind_eq_ok.mp h
  rcases rebindRef_eq ref s with heq | ⟨e, heq⟩
  · rw [heq] at hrebind
    cases hrebind
    obtain ⟨_, s₂, hread, h⟩ := Act.bind_eq_ok.mp h
    cases hread
    obtain ⟨_, s₃, hcheck, h⟩ := Act.bind_eq_ok.mp h
    rcases checkPaths_eq host.py (s.withRef ref).source (s.withRef ref) with ⟨heq, hpaths⟩ | ⟨e, heq⟩
    · rw [heq] at hcheck
      cases hcheck
      obtain ⟨_, made, hensure, h⟩ := Act.bind_eq_ok.mp h
      obtain ⟨_, cloned, hclone, h⟩ := Act.bind_eq_ok.mp h
      obtain ⟨_, sparse, hsparse, h⟩ := Act.bind_eq_ok.mp h
      obtain ⟨sha, checkedOut, hcheckOut, h⟩ := Act.bind_eq_ok.mp h
      obtain ⟨names, s'', hbuild, h⟩ := Act.bind_eq_ok.mp h
      cases h
      exact ⟨⟨made, cloned, sparse, checkedOut, hpaths, hensure, hclone, hsparse, hcheckOut,
        hbuild⟩⟩
    · rw [heq] at hcheck
      cases hcheck
  · rw [heq] at hrebind
    cases hrebind

/-! ## The source through the stages -/

/-- A process changes the machine and the calls alone. -/
theorem keeps_git {I : Refreshing C → Prop}
    (hI : ∀ s m calls, I s → I { s with machine := m, calls := calls }) (args : List String)
    (cwd : PosixPath) : Act.Keeps I (git host args cwd) :=
  Act.Keeps.bind (fun _ hs => hI _ _ _ hs) fun _ => Act.keeps_readE _

section Source

variable {I : Refreshing C → Prop}

theorem cloneMissing_keeps (hI : ∀ s m calls, I s → I { s with machine := m, calls := calls })
    (source : GitSkillSource) : Act.Keeps I (cloneMissing host source) := by
  refine (Act.keeps_read _).bind fun found => ?_
  split
  · exact Act.keeps_pure _
  · exact (keeps_git hI _ _).bind fun _ => Act.keeps_pure _

theorem setSparse_keeps (hI : ∀ s m calls, I s → I { s with machine := m, calls := calls })
    (source : GitSkillSource) : Act.Keeps I (setSparse host source) := by
  unfold setSparse
  split
  · refine (keeps_git hI _ _).bind fun _ => ?_
    exact (keeps_git hI _ _).bind fun _ => Act.keeps_pure _
  · refine (keeps_git hI _ _).attempt.bind fun answer => ?_
    split
    · exact Act.keeps_pure _
    · split
      · exact Act.keeps_pure _
      · exact Act.keeps_raise _
    · exact Act.keeps_raise _

theorem checkOut_keeps (hI : ∀ s m calls, I s → I { s with machine := m, calls := calls })
    (source : GitSkillSource) : Act.Keeps I (checkOut host source) := by
  refine (keeps_git hI _ _).bind fun _ => ?_
  refine (keeps_git hI _ _).bind fun _ => ?_
  exact (keeps_git hI _ _).bind fun _ => Act.keeps_pure _

end Source

/-- The last stage binds the root. -/
theorem buildLocal_source {s s' : Refreshing C} {names : List String} (hs : s.source = source)
    (h : buildLocal host source s = (.ok names, s')) : s'.source = bound source := by
  have hsame : ∀ (s : Refreshing C) (m : Machine C), s.source = source →
      ({ s with machine := m } : Refreshing C).source = source := fun _ _ h => h
  have hbind : ∀ {root : PosixPath} {names names' : List String} {s s' : Refreshing C},
      s.source = source →
      (bindLocal root >>= fun _ => (pure names : Refresh C (List String))) s = (.ok names', s') →
      s'.source = { source with localRoot := some root.text } := by
    intro root names names' s s' hs h
    cases h
    rw [← hs]
  unfold buildLocal at h
  cases hpaths : source.allowedSkillPaths with
  | some paths =>
    rw [hpaths] at h
    dsimp only at h
    split at h
    next hnested =>
      have hroot : skillRoot source = flatDirOf source := by
        rw [skillRoot, overlaid, hpaths]
        exact if_pos hnested
      rw [bound, hroot]
      obtain ⟨_, s₁, hmkdir, h⟩ := Act.bind_eq_ok.mp h
      have hs₁ := (keeps_onMachine (I := fun s => s.source = source) hsame).of_eq hs hmkdir
      obtain ⟨_, s₂, hlinks, h⟩ := Act.bind_eq_ok.mp h
      have hs₂ := (linkAll_keeps (I := fun s => s.source = source) hsame _ _ _).of_eq hs₁ hlinks
      exact hbind hs₂ h
    next hflat =>
      have hroot : skillRoot source = source.cacheDir := by
        rw [skillRoot, overlaid, hpaths]
        exact if_neg hflat
      rw [bound, hroot]
      exact hbind hs h
  | none =>
    rw [hpaths] at h
    have hroot : skillRoot source = source.cacheDir := by
      rw [skillRoot, overlaid, hpaths]
      exact if_neg Bool.false_ne_true
    rw [bound, hroot]
    obtain ⟨names, s₁, hscan, h⟩ := Act.bind_eq_ok.mp h
    have hdirs : Act.Keeps (fun s : Refreshing C => s.source = source) (dirNames source) :=
      (keeps_onMachine hsame).bind fun _ => Act.keeps_read _
    exact hbind (hdirs.of_eq hs hscan) h

theorem Refreshed.checkedOut_source {ref : Option String} {s s' : Refreshing C} {r : RefreshResult}
    (h : Refreshed host ref s r s') : h.checkedOut.source = (s.withRef ref).source := by
  have hsame : ∀ (s₁ : Refreshing C) m calls, s₁.source = (s.withRef ref).source →
      ({ s₁ with machine := m, calls := calls } : Refreshing C).source = (s.withRef ref).source :=
    fun _ _ _ h => h
  have hmade : h.made.source = (s.withRef ref).source :=
    (keeps_onMachine (I := fun s₁ => s₁.source = (s.withRef ref).source)
      fun _ _ h => h).of_eq rfl h.ensure
  have hcloned := (cloneMissing_keeps hsame _).of_eq hmade h.clone
  have hsparse := (setSparse_keeps hsame _).of_eq hcloned h.setSparse
  exact (checkOut_keeps hsame _).of_eq hsparse h.checkOut

/-- **A refresh binds the source**, with the ref in force. -/
theorem refresh_source {ref : Option String} {s s' : Refreshing C} {r : RefreshResult}
    (h : refresh host ref s = (.ok r, s')) : s'.source = bound (s.withRef ref).source := by
  obtain ⟨stages⟩ := refresh_eq_ok h
  exact buildLocal_source stages.checkedOut_source stages.build

end ClawEngine.Skills
