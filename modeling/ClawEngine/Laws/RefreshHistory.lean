import ClawEngine.Core.Transition
import ClawEngine.Laws.CommandLine
import ClawEngine.Laws.Overlay

/-!
# A cache directory that was used before

A refresh finds what earlier refreshes left in the cache directory: the git directory, with the URL
it was cloned from, the checkout, and the overlay. The checkout is made anew. The URL is kept, and
so are the links of the overlay that the refresh does not make itself.

Where the recorded URL is the same and the overlay has no other links, a refresh leaves the same
commit and the same skills whatever came before, unless a path leads into the git directory or the
overlay on its way.
-/

set_option autoImplicit false

namespace ClawEngine.Skills

open ClawEngine.Core ClawEngine.Core.Argv ClawEngine.Posix ClawEngine.Context

variable {C : Type}

/-! ## The state after a refresh -/

/-- The machine once `cache_dir` is made. -/
def made (m : Machine C) (dir : PosixPath) : Machine C := (mkdirParents recursionLimit dir m).2

/-- What refreshes leave of `base`: below the cache directory, the git directory, the tracked
entries of the repository and an overlay with links under some of the names. -/
structure Tidy (g : GitProgram C) (D : Location) (base : Machine C) (r : Repository)
    (names : Set String) (m : Machine C) : Prop where
  outside : SameOutside D base m
  repository : g.repository m D = some r
  tracked : ∀ rest, InTree rest → rest.head? ≠ some overlayName →
    m.disk.get? (D ++ rest) = g.tracked r rest
  untracked : ∀ commit, r.checkedOut = some commit → ∀ sparse rest,
    g.tree commit sparse (overlayName :: rest) = none
  overlay : ∀ rest e, m.disk.get? (overlayAt D ++ rest) = some e →
    (rest = [] ∧ e = .dir) ∨ ∃ name ∈ names, rest = [name] ∧ e.isLink = true

theorem inTree_overlay (rest : Location) : InTree (overlayName :: rest) :=
  ⟨List.cons_ne_nil _ _, fun h => absurd (Option.some.inj h) (by decide)⟩

theorem overlayAt_append (D rest : Location) : overlayAt D ++ rest = D ++ overlayName :: rest := by
  rw [overlayAt, List.append_assoc, List.singleton_append]

namespace Tidy

variable {g : Git C} {dir : PosixPath} {D : Location} {base m m' : Machine C} {r r' : Repository}
  {names names' : Set String}

theorem tracked_overlay (h : Tidy g.toGitProgram D base r names m) (rest : Location) :
    g.tracked r (overlayName :: rest) = none :=
  GitProgram.tracked_eq_none fun commit hcommit sparse => h.untracked commit hcommit sparse rest

theorem mono (h : Tidy g.toGitProgram D base r names m) (hnames : names ⊆ names') :
    Tidy g.toGitProgram D base r names' m where
  outside := h.outside
  repository := h.repository
  tracked := h.tracked
  untracked := h.untracked
  overlay rest e he := (h.overlay rest e he).imp_right fun ⟨name, hname, hrest⟩ =>
    ⟨name, hnames hname, hrest⟩

/-- A process that git starts in the cache directory finds the repository. -/
theorem finds (h : Tidy g.toGitProgram D base r names m) (hbase : StandsAt base dir.sys D)
    (hdir : ∀ name ∈ dir.names, Sliced name) : g.At dir.text D r m where
  found := by
    rw [ofString_text hdir]
    exact (hbase.mono h.outside).leads.found
  repository := h.repository
  intact rest e hrest he := by
    rw [h.tracked rest hrest, he]
    intro hover
    obtain ⟨name, rest', rfl⟩ := List.exists_cons_of_ne_nil hrest.1
    rw [List.head?_cons, Option.some.injEq] at hover
    rw [hover, h.tracked_overlay] at he
    cases he

/-- **What git does keeps the directory tidy**, and leaves the overlay. -/
theorem turns (h : Tidy g.toGitProgram D base r names m) (hturn : g.Turns D r r' m m')
    (hr' : ∀ commit, r'.checkedOut = some commit → ∀ sparse rest,
      g.tree commit sparse (overlayName :: rest) = none) :
    Tidy g.toGitProgram D base r' names m' where
  outside := h.outside.trans hturn.moves.outside
  repository := hturn.repository
  tracked rest hrest hover := by
    cases hafter : g.tracked r' rest with
    | some e => exact hturn.moves.put rest e hrest hafter
    | none =>
      apply hturn.moves.gone rest hrest hafter
      intro more hmore
      have hhead : (rest ++ more).head? = rest.head? := by
        rw [List.head?_append, Option.or_of_isSome (List.isSome_head?.mpr hrest.1)]
      rw [h.tracked _ ⟨List.append_ne_nil_of_left_ne_nil hrest.1 more, hhead ▸ hrest.2⟩
        (hhead ▸ hover), hmore]
  untracked := hr'
  overlay rest e he := by
    apply h.overlay rest e
    rw [overlayAt_append] at he ⊢
    rw [← hturn.moves.kept _ (inTree_overlay rest) ?_ (h.tracked_overlay rest), he]
    exact GitProgram.tracked_eq_none fun commit hcommit sparse => hr' commit hcommit sparse rest

/-- So does what changes nothing. -/
theorem sameDisk (h : Tidy g.toGitProgram D base r names m) (hm : SameDisk m m') :
    Tidy g.toGitProgram D base r names m' where
  outside := h.outside.trans (hm.sameOutside D)
  repository := (g.reads m m' D fun q _ => by rw [hm.1]).trans h.repository
  tracked rest hrest hover := by rw [hm.1, h.tracked rest hrest hover]
  untracked := h.untracked
  overlay rest e he := h.overlay rest e (by rwa [hm.1] at he)

end Tidy

/-! ## The stages -/

section Stages

variable {g : Git C} {remotes : Remotes} {source : GitSkillSource} {D : Location}
  {base : Machine C} {r : Repository} {names : Set String} {s s' : Refreshing C}

theorem git_eq (host : GitHost C) (args : List String) (cwd : PosixPath) (s : Refreshing C) :
    git host args cwd s =
      (gitResult args (host.git ("git" :: args) cwd.text s.machine).1,
        { s with
          machine := (host.git ("git" :: args) cwd.text s.machine).2
          calls := s.calls ++ ["git" :: args] }) := rfl

theorem gitResult_eq_ok {args : List String} {process : GitProcess} {stdout : String}
    (h : gitResult args process = .ok stdout) : ∃ stderr, process = .exited 0 stdout stderr := by
  cases process with
  | notFound => cases h
  | osError text => cases h
  | valueError text => cases h
  | exited returncode out err =>
    unfold gitResult at h
    dsimp only at h
    split at h
    · cases h
    next hzero =>
      cases h
      rw [not_not.mp hzero]
      exact ⟨err, rfl⟩

theorem git_eq_ok {args : List String} {cwd : PosixPath} {stdout : String}
    (h : git (g.host remotes) args cwd s = (.ok stdout, s')) :
    g.Exits remotes args cwd.text s.machine stdout s'.machine := by
  rw [git_eq, Prod.mk.injEq] at h
  obtain ⟨stderr, hprocess⟩ := gitResult_eq_ok h.1
  refine ⟨stderr, Prod.ext hprocess ?_⟩
  rw [← h.2]

variable {dir : PosixPath}

/-- What the stages rely on: where the cache directory is, and that its path is one of names. -/
structure Ground (dir : PosixPath) (D : Location) (base : Machine C) : Prop where
  stands : StandsAt base dir.sys D
  sliced : ∀ name ∈ dir.names, Sliced name

/-- The sparse-checkout leaves the sparse set of the source. -/
theorem setSparse_tidy (hg : Ground dir D base) (hdir : source.cacheDir = dir)
    (hpaths : ∀ paths, source.allowedSkillPaths = some paths → ∀ p ∈ paths, isDashed p = false)
    (h : Tidy g.toGitProgram D base r names s.machine)
    (hok : setSparse (g.host remotes) source s = (.ok (), s')) :
    Tidy g.toGitProgram D base { r with sparse := source.allowedSkillPaths } names s'.machine := by
  subst hdir
  unfold setSparse at hok
  cases hallowed : source.allowedSkillPaths with
  | some paths =>
    rw [hallowed] at hok
    obtain ⟨_, s₁, hinit, hok⟩ := Act.bind_eq_ok.mp hok
    obtain ⟨sparse, hturn⟩ := g.sparseInit _ _ _ _ _ _ _ (h.finds hg.stands hg.sliced)
      (git_eq_ok hinit)
    have h₁ := h.turns hturn h.untracked
    obtain ⟨_, s₂, hset, hok⟩ := Act.bind_eq_ok.mp hok
    cases hok
    exact h₁.turns (g.sparseSet _ _ _ _ _ _ _ _ (hpaths paths hallowed)
      (h₁.finds hg.stands hg.sliced) (git_eq_ok hset)) h.untracked
  | none =>
    rw [hallowed] at hok
    obtain ⟨answer, s₁, hattempt, hok⟩ := Act.bind_eq_ok.mp hok
    have hgit := Act.attempt_eq_ok.mp hattempt
    have hfinds := h.finds hg.stands hg.sliced
    cases answer with
    | ok stdout =>
      cases hok
      exact h.turns (g.sparseDisable _ _ _ _ _ _ _ hfinds (git_eq_ok hgit)) h.untracked
    | error e =>
      cases e with
      | value message => cases hok
      | fs e => cases hok
      | git e =>
        dsimp only at hok
        split at hok
        next hunknown =>
          cases hok
          rw [git_eq, Prod.mk.injEq] at hgit
          obtain ⟨hnone, hturn⟩ := g.sparseUnknown _ _ _ _ _ _ _ _ hfinds rfl hgit.1 hunknown
          have hsame : { r with sparse := none } = r := by rw [← hnone]
          rw [hsame, ← hgit.2]
          exact h.turns hturn h.untracked
        · cases hok

/-- Fetch and checkout leave the commit that the recorded URL has for the ref. -/
theorem checkOut_tidy (hg : Ground dir D base) (hdir : source.cacheDir = dir)
    (href : isDashed source.ref = false)
    (htree : ∀ commit, remotes r.origin source.ref = some commit → ∀ sparse rest,
      g.tree commit sparse (overlayName :: rest) = none)
    (h : Tidy g.toGitProgram D base r names s.machine) {sha : String}
    (hok : checkOut (g.host remotes) source s = (.ok sha, s')) :
    remotes r.origin source.ref = some sha ∧
      Tidy g.toGitProgram D base { r with fetched := some sha, checkedOut := some sha } names
        s'.machine := by
  subst hdir
  obtain ⟨_, s₁, hfetch, hok⟩ := Act.bind_eq_ok.mp hok
  obtain ⟨commit, hcommit, hturn⟩ := g.fetch _ _ _ _ _ _ _ _ href
    (h.finds hg.stands hg.sliced) (git_eq_ok hfetch)
  have h₁ := h.turns hturn h.untracked
  obtain ⟨_, s₂, hcheckout, hok⟩ := Act.bind_eq_ok.mp hok
  obtain ⟨commit', hfetched, hturn⟩ := g.checkout _ _ _ _ _ _ _ (h₁.finds hg.stands hg.sliced)
    (git_eq_ok hcheckout)
  obtain rfl : commit = commit' := Option.some.inj hfetched
  have huntracked : ∀ c, some commit = some c → ∀ sparse rest,
      g.tree c sparse (overlayName :: rest) = none := by
    intro c hc
    rw [← Option.some.inj hc]
    exact htree commit hcommit
  have h₂ := h₁.turns hturn huntracked
  obtain ⟨stdout, s₃, hrev, hok⟩ := Act.bind_eq_ok.mp hok
  obtain ⟨hsha, hturn⟩ := g.revParse _ _ _ _ _ _ _ (h₂.finds hg.stands hg.sliced)
    (git_eq_ok hrev)
  cases hok
  rw [hsha commit rfl]
  exact ⟨hcommit, h₂.turns hturn huntracked⟩

theorem Tidy.gitDir (h : Tidy g.toGitProgram D base r names s.machine) (hg : Ground dir D base) :
    exists? s.machine (dir.child ".git") = true := by
  have hgoes : GoesOn s.machine dir D := (hg.stands.mono h.outside).leads.goesOn.of_sys
  have hdir := (g.gitDir _ _ _ h.repository).1
  rw [exists?]
  simp only [show lookup s.machine true (dir.child ".git") = .found (D ++ [".git"]) from
    hgoes.located (List.cons_ne_nil _ _) hdir rfl true]

/-- Where the git directory is there, nothing is cloned. -/
theorem cloneMissing_tidy (hg : Ground dir D base) (hdir : source.cacheDir = dir)
    (h : Tidy g.toGitProgram D base r names s.machine)
    (hok : cloneMissing (g.host remotes) source s = (.ok (), s')) : s' = s := by
  subst hdir
  obtain ⟨there, s₁, hask, hok⟩ := Act.bind_eq_ok.mp hok
  cases hask
  rw [if_pos (h.gitDir hg)] at hok
  cases hok
  rfl

/-- A cache directory that no refresh used: once it is made, it is empty, and its path names it
also for a process started in its parent directory. -/
structure Unused (m : Machine C) (dir : PosixPath) (D : Location) : Prop where
  leads : Leads (made m dir) dir.sys D
  empty : (made m dir).disk.children D = []
  parent : ∃ W, lookup (made m dir) true (PosixPath.ofString dir.head.text) = .found W ∧
    lookup { made m dir with workdir := W } true (PosixPath.ofString dir.text) = .found D

theorem Unused.stands {m : Machine C} (h : Unused m dir D) : StandsAt (made m dir) dir.sys D :=
  standsAt_of_empty h.leads h.empty

theorem Unused.below {m : Machine C} (h : Unused m dir D) {rest : Location} (hrest : rest ≠ []) :
    (made m dir).disk.get? (D ++ rest) = none := by
  apply Disk.get?_below_empty h.empty (List.prefix_append D rest)
  intro heq
  exact hrest (List.append_right_eq_self.mp heq)

/-- In a cache directory that no refresh used, the URL of the source is cloned. -/
theorem cloneMissing_first {m : Machine C} (hu : Unused m dir D) (hdir : source.cacheDir = dir)
    (hurl : isDashed source.repoUrl = false) (hword : isDashed dir.text = false)
    (hs : s.machine = made m dir)
    (hok : cloneMissing (g.host remotes) source s = (.ok (), s')) :
    ∃ r, r.origin = source.repoUrl ∧ Tidy g.toGitProgram D (made m dir) r ∅ s'.machine := by
  subst hdir
  obtain ⟨there, s₁, hask, hok⟩ := Act.bind_eq_ok.mp hok
  obtain ⟨hthere, rfl⟩ := Act.read_eq_ok.mp hask
  have hmissing : exists? s.machine (source.cacheDir.child ".git") = false := by
    have hgoes : GoesOn s.machine source.cacheDir D := by
      rw [hs]
      exact hu.leads.goesOn.of_sys
    have hnone : s.machine.disk.get? (D ++ [".git"]) = none := by
      rw [hs]
      exact hu.below (List.cons_ne_nil _ _)
    unfold exists?
    split
    next q hq =>
      refine absurd hq (hgoes.not_found (List.cons_ne_nil ".git" []) (by decide)
        (fun r hr target => ?_) hnone q)
      rcases List.prefix_cons_iff.mp hr with rfl | ⟨r', rfl, hr'⟩
      · rw [List.append_nil, hgoes.dir]
        exact nofun
      · rw [List.prefix_nil.mp hr', hnone]
        exact nofun
    · rfl
  obtain rfl : false = there := hmissing.symm.trans hthere
  rw [if_neg Bool.false_ne_true] at hok
  obtain ⟨_, s₂, hclone, hok⟩ := Act.bind_eq_ok.mp hok
  cases hok
  obtain ⟨W, hW, hparent⟩ := hu.parent
  rw [← hs] at hW hparent
  obtain ⟨r, horigin, hchecked, hrepository, hmoves⟩ :=
    g.clone _ _ _ _ _ _ _ _ _ hurl hword hW hparent (git_eq_ok hclone)
  rw [hs] at hmoves
  have hnone : ∀ rest, InTree rest → s'.machine.disk.get? (D ++ rest) = none := by
    intro rest hrest
    rw [hmoves.kept rest hrest rfl rfl]
    exact hu.below hrest.1
  refine ⟨r, horigin, hmoves.outside, hrepository, fun rest hrest _ => ?_, fun commit hcommit => ?_,
    fun rest e he => ?_⟩
  · rw [hnone rest hrest, GitProgram.tracked_eq_none]
    intro commit hcommit
    rw [hchecked] at hcommit
    cases hcommit
  · rw [hchecked] at hcommit
    cases hcommit
  · rw [overlayAt_append, hnone _ (inTree_overlay rest)] at he
    cases he

/-! ## The overlay after a refresh -/

/-- The names the overlay has links under after a refresh, apart from older ones. -/
def linkedNames (source : GitSkillSource) : List String :=
  if overlaid source then (source.allowedSkillPaths.getD []).map baseName else []

theorem off_overlay {rest : Location} (hover : rest.head? ≠ some overlayName) :
    D ++ rest ∈ Off {overlayAt D} := by
  rintro place rfl ⟨more, hmore⟩
  rw [overlayAt_append] at hmore
  rw [← List.append_cancel_left hmore] at hover
  exact hover rfl

theorem Tidy.overlaid {m m' : Machine C} {names' : Set String}
    (h : Tidy g.toGitProgram D base r names m) (hm : SameOff {overlayAt D} m m')
    (hover : ∀ rest e, m'.disk.get? (overlayAt D ++ rest) = some e →
      (rest = [] ∧ e = .dir) ∨ ∃ name ∈ names', rest = [name] ∧ e.isLink = true) :
    Tidy g.toGitProgram D base r names' m' where
  outside := by
    refine h.outside.trans ⟨hm.workdir, fun q hq => hm.same q ?_⟩
    rintro place rfl hpre
    exact hq (below_entry hpre)
  repository := by
    rw [g.reads m m' D fun q hq => hm.same q ?_, h.repository]
    rintro place rfl hpre
    exact absurd (entry_prefix_inj hq hpre) (by decide)
  tracked rest hrest hhead := by
    rw [hm.same _ (off_overlay hhead), h.tracked rest hrest hhead]
  untracked := h.untracked
  overlay := hover

theorem rejectPath_ne_ok {A : Type} {message : String} {a : A} : rejectPath message ≠ .ok a := by
  intro h
  cases h

/-- The last segment of a validated path is a skill name. -/
theorem validateAllowedPath_name {py : Interpreter} {p : String}
    (h : validateAllowedPath py p = .ok ()) : isPlainName (baseName p) = true := by
  by_contra hname
  have hlast : validateSkillName (baseName p) = .error (.invalidSkillName (baseName p)) :=
    if_neg hname
  unfold validateAllowedPath at h
  rw [hlast] at h
  split at h
  · exact rejectPath_ne_ok h
  split at h
  · exact rejectPath_ne_ok h
  split at h
  · exact rejectPath_ne_ok h
  split at h
  · exact rejectPath_ne_ok h
  split at h
  · exact rejectPath_ne_ok h
  cases hsegments : validateSegments py p (pathSegments p) with
  | error e =>
    rw [hsegments] at h
    cases h
  | ok u =>
    rw [hsegments] at h
    exact rejectPath_ne_ok h

/-- The names of validated paths are those of entries. -/
theorem validateAllowedPaths_names {py : Interpreter} {paths : List String}
    (h : validateAllowedPaths py paths = .ok ()) : ∀ p ∈ paths, isEntryName (baseName p) = true := by
  induction paths with
  | nil => exact List.forall_mem_nil _
  | cons p paths ih =>
    cases hp : validateAllowedPath py p with
    | error e =>
      rw [validateAllowedPaths, hp] at h
      cases h
    | ok u =>
      rw [validateAllowedPaths, hp] at h
      exact List.forall_mem_cons.mpr
        ⟨isEntryName_of_isPlainName (validateAllowedPath_name hp), ih h⟩

theorem Tidy.hasOverlay {m : Machine C} (hg : Ground dir D base)
    (h : Tidy g.toGitProgram D base r names m)
    (hdir : m.disk.get? (overlayAt D) = some .dir) : HasOverlay dir D m where
  stands := hg.stands.mono h.outside
  dir := hdir
  links name rest e he := by
    rcases h.overlay _ e he with ⟨hnil, -⟩ | ⟨name', -, hrest, hlink⟩
    · cases hnil
    · exact ⟨(List.cons.inj hrest).2, hlink⟩

/-- The overlay's directory is made, or is there. -/
theorem mkdirHere_tidy {m m' : Machine C} (hg : Ground dir D base)
    (h : Tidy g.toGitProgram D base r names m)
    (hok : mkdirHere (dir.child overlayName) m = (.ok (), m')) :
    Tidy g.toGitProgram D base r names m' ∧ HasOverlay dir D m' ∧
      ∀ q, m'.disk.get? q = if q = overlayAt D then some .dir else m.disk.get? q := by
  have hentry : m.disk.get? (overlayAt D) = none ∨ m.disk.get? (overlayAt D) = some .dir := by
    cases he : m.disk.get? (overlayAt D) with
    | none => exact .inl rfl
    | some e =>
      rw [← List.append_nil (overlayAt D)] at he
      rcases h.overlay [] e he with ⟨-, rfl⟩ | ⟨name, -, hnil, -⟩
      · exact .inr rfl
      · cases hnil
  have hgoes : GoesOn m dir D := (hg.stands.mono h.outside).leads.goesOn.of_sys
  obtain ⟨hwork, hsame⟩ := mkdirHere_eq_ok hgoes overlayName_entry hentry hok
  have htidy : Tidy g.toGitProgram D base r names m' := by
    apply h.overlaid ⟨hwork, fun q hq => ?_⟩
    · intro rest e he
      rw [hsame] at he
      split at he
      next hq =>
        cases he
        exact .inl ⟨List.append_right_eq_self.mp hq, rfl⟩
      · exact h.overlay rest e he
    · rw [hsame, if_neg]
      rintro rfl
      exact hq _ rfl List.prefix_rfl
  exact ⟨htidy, htidy.hasOverlay hg ((hsame _).trans (if_pos rfl)), hsame⟩

/-- What the last stage does to the machine. -/
theorem buildLocal_eq_ok {host : GitHost C} {made : List String}
    (hok : buildLocal host source s = (.ok made, s')) :
    (overlaid source = true ∧ ∃ paths s₁ s₂, source.allowedSkillPaths = some paths ∧
      mkdirHere (flatDirOf source) s.machine = (.ok (), s₁.machine) ∧
      linkAll host source.cacheDir (flatDirOf source) paths s₁ = (.ok (), s₂) ∧
      s'.machine = s₂.machine) ∨
    overlaid source = false ∧ SameDisk s.machine s'.machine := by
  unfold buildLocal at hok
  unfold overlaid
  cases hallowed : source.allowedSkillPaths with
  | some paths =>
    rw [hallowed] at hok
    dsimp only at hok ⊢
    split at hok
    next hnested =>
      obtain ⟨_, s₁, hmkdir, hok⟩ := Act.bind_eq_ok.mp hok
      obtain ⟨_, s₂, hlinks, hok⟩ := Act.bind_eq_ok.mp hok
      cases hok
      exact .inl ⟨hnested, paths, s₁, s₂, rfl, (onMachine_eq_ok hmkdir).1, hlinks, rfl⟩
    next hflat =>
      cases hok
      exact .inr ⟨Bool.eq_false_of_not_eq_true hflat, rfl, rfl⟩
  | none =>
    rw [hallowed] at hok
    obtain ⟨names, s₁, hscan, hok⟩ := Act.bind_eq_ok.mp hok
    cases hok
    refine .inr ⟨rfl, ?_⟩
    have hiter : Act.Keeps (SameDisk s.machine)
        ((iterdir source.cacheDir).mapError .os : Fs C (List String)) :=
      Act.Keeps.mapError _ (Act.Keeps.bind (Act.keeps_readE _) fun _ => Act.keeps_pure _)
    obtain ⟨entries, s₂, hentries, hask⟩ := Act.bind_eq_ok.mp hscan
    cases hask
    exact hiter.of_eq ⟨rfl, rfl⟩ (onMachine_eq_ok hentries).1

end Stages

end ClawEngine.Skills
