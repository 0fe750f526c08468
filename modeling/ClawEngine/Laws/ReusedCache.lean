import ClawEngine.Laws.Materialized
import ClawEngine.Laws.SkillTrees
import ClawEngine.Skills.OneTree

/-!
# Refreshes of one cache directory

Any number of refreshes, of any sources, may have used a cache directory before. What they left is
the repository of the first of them and the links of all of them: a refresh of another url fetches
from the old one, and an overlay answers also for the paths of other sources.

Two histories are forgotten where both began with the url of the refresh that follows them, and
neither left links in its way.
-/

set_option autoImplicit false

namespace ClawEngine.Skills

open ClawEngine.Core ClawEngine.Core.Argv ClawEngine.Posix ClawEngine.Context
  ClawEngine.Orchestration

variable {C : Type}

/-! ## Calls -/

/-- A call of `refresh` on a source, and the remotes at that time. -/
structure RefreshCall where
  remotes : Remotes
  source : GitSkillSource
  ref : Option String

namespace RefreshCall

/-- The source with the ref in force. -/
def inForce (call : RefreshCall) : GitSkillSource :=
  { call.source with ref := call.ref.getD call.source.ref }

/-- What the call comes to. -/
def run (g : GitProgram C) (call : RefreshCall) (m : Machine C) :
    Except RefreshError RefreshResult × Refreshing C :=
  refresh (g.host call.remotes) call.ref { source := call.source, machine := m }

/-- The machine that the call leaves, if it returns. -/
def completed (g : GitProgram C) (call : RefreshCall) (m : Machine C) : Option (Machine C) :=
  match call.run g m with
  | (.ok _, s) => some s.machine
  | (.error _, _) => none

theorem completed_eq_some {g : GitProgram C} {call : RefreshCall} {m m' : Machine C} :
    call.completed g m = some m' ↔ ∃ r s, call.run g m = (.ok r, s) ∧ s.machine = m' := by
  unfold completed
  cases call.run g m with
  | mk answer s =>
    cases answer with
    | ok r =>
      constructor
      · intro h
        exact ⟨r, s, rfl, Option.some.inj h⟩
      · rintro ⟨r', s', heq, rfl⟩
        cases heq
        rfl
    | error e =>
      constructor
      · intro h
        cases h
      · rintro ⟨r', s', heq, -⟩
        cases heq

/-- The call is of a source over the directory, git reads none of its texts as an option, and no
commit of its remotes has an entry under the name of the overlay. -/
structure Plain (g : GitProgram C) (dir : PosixPath) (call : RefreshCall) : Prop where
  cacheDir : call.source.cacheDir = dir
  url : isDashed call.source.repoUrl = false
  ref : isDashed call.inForce.ref = false
  paths : ∀ paths, call.source.allowedSkillPaths = some paths → ∀ p ∈ paths, isDashed p = false
  trees : ∀ url ref commit, call.remotes url ref = some commit → ∀ sparse rest,
    g.tree commit sparse (overlayName :: rest) = none

end RefreshCall

/-- The names under which the calls left links. -/
def leftNames (history : List RefreshCall) : Set String :=
  {name | ∃ call ∈ history, name ∈ linkedNames call.source}

/-- The refreshes happened on the machine, one after the other, and left this one. -/
abbrev Refreshes (g : GitProgram C) (m₀ : Machine C) (history : List RefreshCall) (m : Machine C) :
    Prop :=
  Run (RefreshCall.completed g) m₀ history m

/-! ## One refresh -/

section Refresh

variable {g : Git C} {dir : PosixPath} {D : Location} {m₀ m : Machine C} {url : String}
  {names : Set String} {call : RefreshCall} {result : RefreshResult} {s : Refreshing C}

/-- Where a refresh may begin: in an unused cache directory, or with what refreshes left of a
repository cloned from `url`. -/
def Begins (g : Git C) (m₀ : Machine C) (dir : PosixPath) (D : Location) (url : String)
    (names : Set String) (call : RefreshCall) (m : Machine C) : Prop :=
  (m = m₀ ∧ call.source.repoUrl = url) ∨
    ∃ r : Repository, r.origin = url ∧ Tidy g.toGitProgram D (made m₀ dir) r names m

theorem Unused.ground (hu : Unused m₀ dir D) (hsliced : ∀ name ∈ dir.names, Sliced name) :
    Ground dir D (made m₀ dir) := ⟨hu.stands, hsliced⟩

/-- The first two stages leave a repository. -/
theorem cloned_tidy (hu : Unused m₀ dir D) (hsliced : ∀ name ∈ dir.names, Sliced name)
    (hword : isDashed dir.text = false) (hcall : call.Plain g.toGitProgram dir)
    (h : Begins g m₀ dir D url names call m)
    (stages : Refreshed (g.host call.remotes) call.ref { source := call.source, machine := m }
      result s) :
    ∃ r : Repository, r.origin = url ∧
      Tidy g.toGitProgram D (made m₀ dir) r names stages.cloned.machine := by
  have hdir : call.inForce.cacheDir = dir := hcall.cacheDir
  have hmade : stages.made.machine = made m dir := by
    have hsnd := ensureCacheDir_snd (g.host call.remotes) call.inForce
      { source := call.inForce, machine := m }
    rw [show ensureCacheDir (g.host call.remotes) call.inForce
      { source := call.inForce, machine := m } = _ from stages.ensure, hdir] at hsnd
    exact congrArg Refreshing.machine hsnd
  rcases h with ⟨rfl, hurl⟩ | ⟨r, hurl, htidy⟩
  · obtain ⟨r, horigin, htidy⟩ := cloneMissing_first hu hdir hcall.url hword hmade stages.clone
    exact ⟨r, horigin.trans hurl, htidy.mono (Set.empty_subset names)⟩
  · have hleads : Leads m dir.sys D := (hu.stands.mono htidy.outside).leads
    have htidy' : Tidy g.toGitProgram D (made m₀ dir) r names stages.made.machine := by
      rw [hmade]
      exact htidy.sameDisk (mkdirParents_leads hleads recursionLimit)
    have hsame := cloneMissing_tidy (hu.ground hsliced) hdir htidy' stages.clone
    exact ⟨r, hurl, by rwa [hsame]⟩

/-- What is checked out is the commit that the recorded url has for the ref. -/
theorem checkedOut_tidy (hu : Unused m₀ dir D) (hsliced : ∀ name ∈ dir.names, Sliced name)
    (hword : isDashed dir.text = false) (hcall : call.Plain g.toGitProgram dir)
    (h : Begins g m₀ dir D url names call m)
    (stages : Refreshed (g.host call.remotes) call.ref { source := call.source, machine := m }
      result s) :
    call.remotes url call.inForce.ref = some result.ref ∧
      ∃ r : Repository, r.origin = url ∧ r.sparse = call.source.allowedSkillPaths ∧
        r.checkedOut = some result.ref ∧
        Tidy g.toGitProgram D (made m₀ dir) r names stages.checkedOut.machine := by
  have hground := hu.ground hsliced
  have hdir : call.inForce.cacheDir = dir := hcall.cacheDir
  obtain ⟨r, rfl, htidy⟩ := cloned_tidy hu hsliced hword hcall h stages
  have hsparse := setSparse_tidy hground hdir hcall.paths htidy stages.setSparse
  obtain ⟨hcommit, htidy'⟩ := checkOut_tidy hground hdir hcall.ref
    (fun commit hcommit => hcall.trees _ _ _ hcommit) hsparse stages.checkOut
  refine ⟨hcommit, { r with
      sparse := call.source.allowedSkillPaths
      fetched := some result.ref
      checkedOut := some result.ref }, rfl, rfl, rfl, htidy'⟩

theorem entry_off {paths : List String} {name : String} {rest : Location} (hname : name ∉ paths) :
    overlayAt D ++ name :: rest ∈ Off (entriesAt D paths) := by
  rintro place ⟨name', hname', rfl⟩ hpre
  rcases List.prefix_cons_iff.mp ((List.prefix_append_right_inj _).mp hpre) with hnil |
    ⟨names, hcons, -⟩
  · cases hnil
  · rw [(List.cons.inj hcons).1] at hname'
    exact hname hname'

/-- The entries of the overlay after the last stage. -/
theorem buildLocal_tidy {host : GitHost C} {source : GitSkillSource} {base : Machine C}
    {r : Repository} {made : List String} {s s' : Refreshing C} (hg : Ground dir D base)
    (hdir : source.cacheDir = dir)
    (hvalid : ∀ paths, source.allowedSkillPaths = some paths →
      validateAllowedPaths host.py paths = .ok ())
    (h : Tidy g.toGitProgram D base r names s.machine)
    (hok : buildLocal host source s = (.ok made, s')) :
    Tidy g.toGitProgram D base r (names ∪ {name | name ∈ linkedNames source}) s'.machine := by
  subst hdir
  rcases buildLocal_eq_ok hok with ⟨hover, paths, s₁, s₂, hpaths, hmkdir, hlinks, hmachine⟩ |
    ⟨-, hsame⟩
  · have hlinked : linkedNames source = paths.map baseName := by
      rw [linkedNames, if_pos hover, hpaths, Option.getD_some]
    obtain ⟨htidy, hoverlay, -⟩ := mkdirHere_tidy hg h hmkdir
    obtain ⟨hoverlay', hsame⟩ :=
      linkAll_eq_ok hoverlay (validateAllowedPaths_names (hvalid paths hpaths)) hlinks
    rw [hmachine, hlinked]
    refine htidy.overlaid (hsame.mono ?_) fun rest e he => ?_
    · rintro place ⟨name, -, rfl⟩
      exact ⟨_, rfl, List.prefix_append _ _⟩
    · cases rest with
      | nil =>
        rw [List.append_nil, hoverlay'.dir, Option.some.injEq] at he
        exact .inl ⟨rfl, he.symm⟩
      | cons name rest =>
        obtain ⟨rfl, hlink⟩ := hoverlay'.links name rest e he
        refine .inr ⟨name, ?_, rfl, hlink⟩
        by_cases hname : name ∈ paths.map baseName
        · exact .inr hname
        · rw [hsame.same _ (entry_off hname)] at he
          rcases htidy.overlay _ e he with ⟨hnil, -⟩ | ⟨name', hname', hrest, -⟩
          · cases hnil
          · rw [(List.cons.inj hrest).1]
            exact .inl hname'
  · exact (h.sameDisk hsame).mono Set.subset_union_left

/-- **One refresh** leaves a repository with the same url, and links under its own names and those
that were there. -/
theorem refreshed_tidy (hu : Unused m₀ dir D) (hsliced : ∀ name ∈ dir.names, Sliced name)
    (hword : isDashed dir.text = false) (hcall : call.Plain g.toGitProgram dir)
    (h : Begins g m₀ dir D url names call m) (hrun : call.run g.toGitProgram m = (.ok result, s)) :
    ∃ r : Repository, r.origin = url ∧
      Tidy g.toGitProgram D (made m₀ dir) r (names ∪ {name | name ∈ linkedNames call.source})
        s.machine := by
  obtain ⟨stages⟩ := refresh_eq_ok hrun
  obtain ⟨-, r, horigin, -, -, htidy⟩ := checkedOut_tidy hu hsliced hword hcall h stages
  exact ⟨r, horigin, buildLocal_tidy (hu.ground hsliced) hcall.cacheDir stages.paths htidy
    stages.build⟩

/-- What comes before a refresh: calls over the same directory, the first of them of the url. -/
structure Preceded (g : GitProgram C) (dir : PosixPath) (url : String)
    (history : List RefreshCall) : Prop where
  plain : ∀ earlier ∈ history, earlier.Plain g dir
  first : ∀ earlier ∈ history.head?, earlier.source.repoUrl = url

/-- **Any number of refreshes** leaves a repository with the url of the first, and links under the
names of all. -/
theorem refreshes_tidy (hu : Unused m₀ dir D) (hsliced : ∀ name ∈ dir.names, Sliced name)
    (hword : isDashed dir.text = false) {history : List RefreshCall}
    (hhistory : Preceded g.toGitProgram dir url history)
    (hrun : Refreshes g.toGitProgram m₀ history m) :
    (history = [] ∧ m = m₀) ∨ ∃ r : Repository, r.origin = url ∧
      Tidy g.toGitProgram D (made m₀ dir) r (leftNames history) m := by
  induction hrun with
  | nil => exact .inl ⟨rfl, rfl⟩
  | @snoc earlier call m m' hrun hlast ih =>
    obtain ⟨result, s, hcall, rfl⟩ := RefreshCall.completed_eq_some.mp hlast
    have hplain : call.Plain g.toGitProgram dir :=
      hhistory.plain call (List.mem_append_right _ (List.mem_singleton_self _))
    have hbegins : Begins g m₀ dir D url (leftNames earlier) call m := by
      have hearlier : Preceded g.toGitProgram dir url earlier :=
        ⟨fun call' hcall' => hhistory.plain call' (List.mem_append_left _ hcall'),
          fun call' hcall' => hhistory.first call' (by
            rw [List.head?_append, Option.mem_def.mp hcall']
            rfl)⟩
      refine (ih hearlier).imp_left ?_
      rintro ⟨rfl, rfl⟩
      exact ⟨rfl, hhistory.first call rfl⟩
    obtain ⟨r, horigin, htidy⟩ := refreshed_tidy hu hsliced hword hplain hbegins hcall
    refine .inr ⟨r, horigin, htidy.mono ?_⟩
    rintro name (⟨call', hcall', hname⟩ | hname)
    · exact ⟨call', List.mem_append_left _ hcall', hname⟩
    · exact ⟨call, List.mem_append_right _ (List.mem_singleton_self _), hname⟩

end Refresh

/-! ## Two checkouts of one tree -/

/-- The tree stands at `D`, over a machine that had nothing there. -/
structure Shows (D : Location) (base : Machine C) (t : Tree C) (m : Machine C) : Prop where
  outside : SameOutside D base m
  tree : ∀ rest, InTree rest → rest.head? ≠ some overlayName → m.disk.get? (D ++ rest) = t rest

/-- The overlay holds links to the paths, each under its last segment, and nothing else. -/
def LinksTo (dir : PosixPath) (D : Location) (paths : List String) (m : Machine C) : Prop :=
  ∀ rest e, m.disk.get? (overlayAt D ++ rest) = some e →
    (rest = [] ∧ e = .dir) ∨
      ∃ p ∈ paths, rest = [baseName p] ∧ e = .link (dir.joinText p).text

section Shows

variable {g : Git C} {dir : PosixPath} {D : Location} {base m m' : Machine C} {t : Tree C}
  {r r' : Repository} {names names' : Set String} {source : GitSkillSource}

theorem Tidy.shows (h : Tidy g.toGitProgram D base r names m) :
    Shows D base (g.tracked r) m := ⟨h.outside, h.tracked⟩

/-- Machines that show one tree agree apart from the git directory and the overlay. -/
theorem Shows.sameOff (h : Shows D base t m) (h' : Shows D base t m') :
    SameOff {gitAt D, overlayAt D} m m' := by
  refine ⟨h'.outside.1.trans h.outside.1.symm, fun q hq => ?_⟩
  by_cases hbelow : D <+: q ∧ q ≠ D
  · obtain ⟨⟨rest, rfl⟩, hne⟩ := hbelow
    have hrest : rest ≠ [] := by
      rintro rfl
      exact hne (List.append_nil D)
    have hhead : ∀ name, D ++ [name] ∈ ({gitAt D, overlayAt D} : Set Location) →
        rest.head? ≠ some name := by
      intro name hplace hhead
      obtain ⟨more, rfl⟩ := List.head?_eq_some_iff.mp hhead
      refine hq _ hplace ⟨more, ?_⟩
      rw [List.append_assoc, List.singleton_append]
    have hgit := hhead ".git" (.inl rfl)
    have hover := hhead overlayName (.inr rfl)
    rw [h.tree rest ⟨hrest, hgit⟩ hover, h'.tree rest ⟨hrest, hgit⟩ hover]
  · rw [h.outside.2 q hbelow, h'.outside.2 q hbelow]

/-- What a change below the overlay leaves shows the tree still. -/
theorem Shows.mono (h : Shows D base t m) (hm : SameOff {overlayAt D} m m') :
    Shows D base t m' where
  outside := by
    refine h.outside.trans ⟨hm.workdir, fun q hq => hm.same q ?_⟩
    rintro place rfl hpre
    exact hq (below_entry hpre)
  tree rest hrest hover := by
    rw [hm.same _ (off_overlay hover), h.tree rest hrest hover]

/-- Nothing the source reads leads into the git directory, or into an overlay that is not its own. -/
structure ReadsApart (D : Location) (base : Machine C) (t : Tree C) (source : GitSkillSource) :
    Prop where
  flat : overlaid source = false → ∀ m, Shows D base t m → ∀ name, isPlainName name = true →
    name ≠ ".git" → name ≠ overlayName → Apart {gitAt D, overlayAt D} m (skillPath source name)
  paths : overlaid source = true → ∀ m, Shows D base t m →
    ∀ p ∈ source.allowedSkillPaths.getD [],
      ClearOf {gitAt D, overlayAt D} m (source.cacheDir.joinText p)
  overlay : overlaid source = true → ∀ m, Shows D base t m →
    LinksTo source.cacheDir D (source.allowedSkillPaths.getD []) m →
    ∀ name, isPlainName name = true → Apart {gitAt D} m (skillPath source name)

/-- The loop over the paths leaves links to them where nothing else is but links under their
names. -/
theorem linkAll_links {host : GitHost C} {paths all : List String} {s s' : Refreshing C}
    (hm : HasOverlay dir D s.machine) (hnames : ∀ p ∈ paths, isEntryName (baseName p) = true)
    (hall : paths ⊆ all)
    (hdone : ∀ name, name ∉ paths.map baseName → ∀ e,
      s.machine.disk.get? (overlayAt D ++ [name]) = some e →
      ∃ p ∈ all, name = baseName p ∧ e = .link (dir.joinText p).text)
    (h : linkAll host dir (dir.child overlayName) paths s = (.ok (), s')) :
    LinksTo dir D all s'.machine := by
  induction paths generalizing s with
  | nil =>
    cases h
    intro rest e he
    cases rest with
    | nil =>
      rw [List.append_nil, hm.dir, Option.some.injEq] at he
      exact .inl ⟨rfl, he.symm⟩
    | cons name rest =>
      obtain ⟨rfl, -⟩ := hm.links name rest e he
      obtain ⟨p, hp, rfl, hlink⟩ := hdone name List.not_mem_nil e he
      exact .inr ⟨p, hp, rfl, hlink⟩
  | cons p paths ih =>
    obtain ⟨_, s₁, hlink, hrest⟩ := Act.bind_eq_ok.mp h
    have hone := linkAllowed_eq_ok hm (hnames p List.mem_cons_self) hlink
    refine ih (hone.hasOverlay hm) (fun p' hp' => hnames p' (List.mem_cons_of_mem p hp'))
      (fun p' hp' => hall (List.mem_cons_of_mem p hp')) (fun name hname e he => ?_) hrest
    by_cases hself : name = baseName p
    · subst hself
      obtain ⟨m₁, -, hentry⟩ := hone.link
      rw [hentry _ List.prefix_rfl] at he
      split at he
      · cases he
        exact ⟨p, hall List.mem_cons_self, rfl, rfl⟩
      · cases he
    · rw [hone.same _ fun hpre => ?_] at he
      · refine hdone name (fun hmem => ?_) e he
        rcases List.mem_cons.mp hmem with heq | hmem
        · exact hself heq
        · exact hname hmem
      · have heq := (List.prefix_append_right_inj _).mp hpre
        rcases List.prefix_cons_iff.mp heq with hnil | ⟨names, hcons, -⟩
        · cases hnil
        · exact hself (List.cons.inj hcons).1.symm

/-- No skill has the name of an entry that is no link and holds no `SKILL.md`. -/
theorem isSkill_of_missing {dest : PosixPath} {R : Location} {name : String}
    (h : GoesOn m dest R) (hname : isEntryName name = true)
    (hplain : ∀ target, m.disk.get? (R ++ [name]) ≠ some (.link target))
    (hnone : m.disk.get? (R ++ [name, "SKILL.md"]) = none) :
    isSkill m (dest.child name) = false := by
  rw [← Bool.not_eq_true, isSkill_iff]
  rintro ⟨-, f, hfound, -⟩
  have hpath : (dest.child name).child "SKILL.md" = dest.descend [name, "SKILL.md"] := by
    rw [PosixPath.child, PosixPath.child, PosixPath.descend, List.append_assoc]
    rfl
  rw [hpath] at hfound
  refine h.not_found (List.cons_ne_nil _ _) (fun n hn => ?_) (fun r hr target => ?_) hnone f hfound
  · rcases List.mem_pair.mp hn with rfl | rfl
    · exact hname
    · decide
  · rcases List.prefix_cons_iff.mp hr with rfl | ⟨r', rfl, hr'⟩
    · rw [List.append_nil, h.dir]
      intro hlink
      cases hlink
    rcases List.prefix_cons_iff.mp hr' with rfl | ⟨r'', rfl, hr''⟩
    · exact hplain target
    · rw [List.prefix_nil.mp hr'', hnone]
      intro hlink
      cases hlink

end Shows

/-! ## Two refreshes -/

/-- Two refreshes returned the same commit, and their sources serve the same skills. -/
structure ServesAlike (r : RefreshResult) (s : Refreshing C) (r' : RefreshResult)
    (s' : Refreshing C) : Prop where
  commit : r'.ref = r.ref
  hasSkill : ∀ name, s'.source.reader.hasSkill s'.machine name =
    s.source.reader.hasSkill s.machine name
  skillDir : ∀ name, s'.source.reader.skillDir s'.machine name =
    s.source.reader.skillDir s.machine name
  content : ∀ name, s'.source.reader.tree s'.machine name = s.source.reader.tree s.machine name

/-- The call, made on either machine, serves alike. -/
def Forgets (g : GitProgram C) (m m' : Machine C) (call : RefreshCall) : Prop :=
  ∀ r s r' s', call.run g m = (.ok r, s) → call.run g m' = (.ok r', s') → ServesAlike r s r' s'

section Two

variable {source : GitSkillSource} {m m' : Machine C} {H : Set Location}

/-- The source has the same skills on the two machines, in the same places, with the same trees. -/
structure ServesOn (source : SkillSource C) (m m' : Machine C) : Prop where
  hasSkill : ∀ name, source.hasSkill m' name = source.hasSkill m name
  skillDir : ∀ name, source.skillDir m' name = source.skillDir m name
  content : ∀ name, source.tree m' name = source.tree m name

/-- A source over two machines serves alike if its skills are apart from where these differ, or are
none. -/
theorem bound_alike (hsame : SameOff H m m')
    (hskill : ∀ name, isPlainName name = true →
      Apart H m (skillPath source name) ∨
        isSkill m (skillPath source name) = false ∧ isSkill m' (skillPath source name) = false) :
    ServesOn (bound source).reader m m' := by
  have hboth : ∀ name, isPlainName name = true →
      isSkill m' (skillPath source name) = isSkill m (skillPath source name) := by
    intro name hname
    rcases hskill name hname with hapart | ⟨hnone, hnone'⟩
    · exact isSkill_of_apart hapart (isEntryName_of_isPlainName hname) hsame
    · rw [hnone, hnone']
  have hhas : ∀ name,
      (bound source).reader.hasSkill m' name = (bound source).reader.hasSkill m name := by
    intro name
    rw [Bool.eq_iff_iff, bound_hasSkill, bound_hasSkill]
    exact and_congr_right fun hname => by rw [hboth name hname]
  have hdir : ∀ name,
      (bound source).reader.skillDir m' name = (bound source).reader.skillDir m name := by
    intro name
    rw [bound_skillDir_eq, bound_skillDir_eq]
    by_cases hname : isPlainName name = true
    · rw [hboth name hname]
    · rw [if_neg hname, if_neg hname]
  refine ⟨hhas, hdir, fun name => ?_⟩
  unfold SkillSource.tree
  rw [hdir]
  cases h : (bound source).reader.skillDir m name with
  | error e => rfl
  | ok p =>
    obtain ⟨hhasSkill, rfl⟩ := bound_skillDir.mp h
    obtain ⟨hname, hisSkill⟩ := bound_hasSkill.mp hhasSkill
    rcases hskill name hname with hapart | ⟨hnone, -⟩
    · exact hapart.treeOf_eq (isEntryName_of_isPlainName hname) hsame
    · rw [hnone] at hisSkill
      cases hisSkill

end Two

section Alike

variable {g : Git C} {dir : PosixPath} {D : Location} {m₀ base m m' : Machine C} {url : String}
  {r r' : Repository} {names names' : Set String} {source : GitSkillSource} {call : RefreshCall}

theorem tracked_of_checkedOut {g : GitProgram C} {commit : String} {sparse : Option (List String)}
    (hcommit : r.checkedOut = some commit) (hsparse : r.sparse = sparse) :
    g.tracked r = g.tree commit sparse := by
  unfold GitProgram.tracked
  rw [hcommit, hsparse]

/-- The git directory is no skill of the cache directory. -/
theorem Tidy.gitDir_not_skill (h : Tidy g.toGitProgram D base r names m) (hg : Ground dir D base) :
    isSkill m (dir.child ".git") = false := by
  obtain ⟨hdir, hnone⟩ := g.gitDir _ _ _ h.repository
  refine isSkill_of_missing (hg.stands.mono h.outside).leads.goesOn.of_sys (by decide)
    (fun target hlink => ?_) ?_
  · rw [show D ++ [".git"] = gitAt D from rfl, hdir] at hlink
    cases hlink
  · rw [← hnone, gitAt, List.append_assoc]
    rfl

/-- Nor is the overlay, unless a link in it has the name `SKILL.md`. -/
theorem Tidy.overlay_not_skill (h : Tidy g.toGitProgram D base r names m) (hg : Ground dir D base)
    (hnames : "SKILL.md" ∉ names) : isSkill m (dir.child overlayName) = false := by
  refine isSkill_of_missing (hg.stands.mono h.outside).leads.goesOn.of_sys overlayName_entry
    (fun target hlink => ?_) ?_
  · have hentry : m.disk.get? (overlayAt D ++ []) = some (.link target) := by
      rw [List.append_nil]
      exact hlink
    rcases h.overlay _ _ hentry with ⟨-, hdir⟩ | ⟨name, -, hnil, -⟩
    · cases hdir
    · cases hnil
  · by_contra hsome
    obtain ⟨e, he⟩ := Option.ne_none_iff_exists'.mp hsome
    have hentry : m.disk.get? (overlayAt D ++ ["SKILL.md"]) = some e := by
      rw [overlayAt_append]
      exact he
    rcases h.overlay _ _ hentry with ⟨hnil, -⟩ | ⟨name, hname, hrest, -⟩
    · cases hnil
    · rw [← (List.cons.inj hrest).1] at hname
      exact hnames hname

/-- Two repositories with the same tree checked out, whose overlays have links under the names only,
agree apart from the git directory and the links. -/
theorem Tidy.sameOff_entries (h : Tidy g.toGitProgram D base r names m)
    (h' : Tidy g.toGitProgram D base r' names' m') (htree : g.tracked r' = g.tracked r)
    (hdir : m.disk.get? (overlayAt D) = some .dir) (hdir' : m'.disk.get? (overlayAt D) = some .dir)
    {linked : List String} (hnames : ∀ name ∈ names, name ∈ linked)
    (hnames' : ∀ name ∈ names', name ∈ linked) :
    SameOff ({gitAt D} ∪ entriesAt D linked) m m' := by
  have hshows : Shows D base (g.tracked r) m' := htree ▸ h'.shows
  have hsame := h.shows.sameOff hshows
  refine ⟨hsame.workdir, fun q hq => ?_⟩
  by_cases hover : overlayAt D <+: q
  · obtain ⟨rest, rfl⟩ := hover
    cases rest with
    | nil => rw [List.append_nil, hdir, hdir']
    | cons name rest =>
      have hname : name ∉ linked := by
        intro hmem
        refine hq (overlayAt D ++ [name]) (.inr ⟨name, hmem, rfl⟩) ⟨rest, ?_⟩
        rw [List.append_assoc, List.singleton_append]
      have hnone : ∀ {r : Repository} {names : Set String} {m : Machine C},
          Tidy g.toGitProgram D base r names m → (∀ name ∈ names, name ∈ linked) →
          m.disk.get? (overlayAt D ++ name :: rest) = none := by
        intro r names m htidy hsub
        by_contra hsome
        obtain ⟨e, he⟩ := Option.ne_none_iff_exists'.mp hsome
        rcases htidy.overlay _ e he with ⟨hnil, -⟩ | ⟨name', hname', hrest, -⟩
        · cases hnil
        · rw [← (List.cons.inj hrest).1] at hname'
          exact hname (hsub name hname')
      rw [hnone h hnames, hnone h' hnames']
  · refine hsame.same q ?_
    rintro place (rfl | rfl)
    · exact hq _ (.inl rfl)
    · exact hover

/-- What earlier refreshes left does not get in the way of the source: where it makes an overlay,
they have no links under other names, and else none under the name `SKILL.md`. -/
def Undisturbed (source : GitSkillSource) (names : Set String) : Prop :=
  ∀ name ∈ names, if overlaid source then name ∈ linkedNames source else name ≠ "SKILL.md"

theorem Undisturbed.nested (h : Undisturbed source names) (hover : overlaid source = true)
    {paths : List String} (hpaths : source.allowedSkillPaths = some paths) :
    ∀ name ∈ names, name ∈ paths.map baseName := by
  intro name hname
  have hmem := h name hname
  rwa [if_pos hover, linkedNames, if_pos hover, hpaths, Option.getD_some] at hmem

theorem Undisturbed.flat (h : Undisturbed source names) (hflat : overlaid source = false) :
    "SKILL.md" ∉ names := by
  intro hmem
  have hne := h "SKILL.md" hmem
  rw [hflat, if_neg Bool.false_ne_true] at hne
  exact hne rfl

/-- A source without an overlay serves two checkouts of one tree alike. -/
theorem flat_alike (hflat : overlaid source = false) (hg : Ground dir D base)
    (hdir : source.cacheDir = dir) (h : Tidy g.toGitProgram D base r names m)
    (h' : Tidy g.toGitProgram D base r' names' m') (htree : g.tracked r' = g.tracked r)
    (hreads : ReadsApart D base (g.tracked r) source) (hnames : "SKILL.md" ∉ names)
    (hnames' : "SKILL.md" ∉ names') : ServesOn (bound source).reader m m' := by
  subst hdir
  have hroot : ∀ (m : Machine C) name, isSkill m (skillPath source name) =
      isSkill m (source.cacheDir.child name) := by
    intro m name
    rw [skillPath_eq hg.sliced, isSkill_sys, skillRoot, hflat, if_neg Bool.false_ne_true]
  refine bound_alike (h.shows.sameOff (htree ▸ h'.shows)) fun name hname => ?_
  by_cases hgit : name = ".git"
  · refine .inr ?_
    rw [hroot, hroot, hgit]
    exact ⟨h.gitDir_not_skill hg, h'.gitDir_not_skill hg⟩
  by_cases hover : name = overlayName
  · refine .inr ?_
    rw [hroot, hroot, hover]
    exact ⟨h.overlay_not_skill hg hnames, h'.overlay_not_skill hg hnames'⟩
  · exact .inl (hreads.flat hflat m h.shows name hname hgit hover)

/-- An overlay made over two checkouts of one tree, where no other links are, is served alike. -/
theorem overlay_alike {host host' : GitHost C} {paths : List String} {s s₁ s₂ t t₁ t₂ : Refreshing C}
    (hover : overlaid source = true) (hpaths : source.allowedSkillPaths = some paths)
    (hvalid : validateAllowedPaths host.py paths = .ok ()) (hg : Ground dir D base)
    (hdir : source.cacheDir = dir) (h : Tidy g.toGitProgram D base r names s.machine)
    (h' : Tidy g.toGitProgram D base r' names' t.machine) (htree : g.tracked r' = g.tracked r)
    (hreads : ReadsApart D base (g.tracked r) source)
    (hnames : ∀ name ∈ names, name ∈ paths.map baseName)
    (hnames' : ∀ name ∈ names', name ∈ paths.map baseName)
    (hmkdir : mkdirHere (flatDirOf source) s.machine = (.ok (), s₁.machine))
    (hmkdir' : mkdirHere (flatDirOf source) t.machine = (.ok (), t₁.machine))
    (hlinks : linkAll host source.cacheDir (flatDirOf source) paths s₁ = (.ok (), s₂))
    (hlinks' : linkAll host' source.cacheDir (flatDirOf source) paths t₁ = (.ok (), t₂)) :
    ServesOn (bound source).reader s₂.machine t₂.machine := by
  subst hdir
  have hentries := validateAllowedPaths_names hvalid
  obtain ⟨htidy, hoverlay, -⟩ := mkdirHere_tidy hg h hmkdir
  obtain ⟨htidy', hoverlay', -⟩ := mkdirHere_tidy hg h' hmkdir'
  have hclear := hreads.paths hover s₁.machine htidy.shows
  rw [hpaths, Option.getD_some] at hclear
  have hsame : SameOff {gitAt D} s₂.machine t₂.machine :=
    linkAll_alike hoverlay hoverlay' hentries hclear
      (htidy.sameOff_entries htidy' htree hoverlay.dir hoverlay'.dir hnames hnames') hlinks hlinks'
  have hshows : Shows D base (g.tracked r) s₂.machine := by
    refine htidy.shows.mono ((linkAll_eq_ok hoverlay hentries hlinks).2.mono ?_)
    rintro place ⟨name, -, rfl⟩
    exact ⟨_, rfl, List.prefix_append _ _⟩
  have hlinked : LinksTo source.cacheDir D paths s₂.machine := by
    refine linkAll_links hoverlay hentries (List.Subset.refl paths) (fun name hname e he => ?_) hlinks
    rcases htidy.overlay _ e he with ⟨hnil, -⟩ | ⟨name', hname', hrest, -⟩
    · cases hnil
    · rw [← (List.cons.inj hrest).1] at hname'
      exact absurd (hnames name hname') hname
  refine bound_alike hsame fun name hname => .inl ?_
  refine hreads.overlay hover s₂.machine hshows ?_ name hname
  rw [hpaths, Option.getD_some]
  exact hlinked

/-- **A refresh that begins over two repositories of one url** serves alike. -/
theorem refresh_alike (hu : Unused m₀ dir D) (hsliced : ∀ name ∈ dir.names, Sliced name)
    (hword : isDashed dir.text = false) (hcall : call.Plain g.toGitProgram dir)
    (hreads : ∀ commit, call.remotes url call.inForce.ref = some commit →
      ReadsApart D (made m₀ dir) (g.tree commit call.inForce.allowedSkillPaths) call.inForce)
    (hnames : Undisturbed call.inForce names) (hnames' : Undisturbed call.inForce names')
    (h : Begins g m₀ dir D url names call m) (h' : Begins g m₀ dir D url names' call m') :
    Forgets g.toGitProgram m m' call := by
  intro result s result' s' hrun hrun'
  have hground := hu.ground hsliced
  have hdir : call.inForce.cacheDir = dir := hcall.cacheDir
  obtain ⟨stages⟩ := refresh_eq_ok hrun
  obtain ⟨stages'⟩ := refresh_eq_ok hrun'
  obtain ⟨hcommit, r, -, hsparse, hchecked, htidy⟩ :=
    checkedOut_tidy hu hsliced hword hcall h stages
  obtain ⟨hcommit', r', -, hsparse', hchecked', htidy'⟩ :=
    checkedOut_tidy hu hsliced hword hcall h' stages'
  have hsha : result'.ref = result.ref := Option.some.inj (hcommit'.symm.trans hcommit)
  have htree : g.tracked r = g.tree result.ref call.inForce.allowedSkillPaths :=
    tracked_of_checkedOut hchecked hsparse
  have htree' : g.tracked r' = g.tracked r := by
    rw [htree, ← hsha]
    exact tracked_of_checkedOut hchecked' hsparse'
  have happart := hreads _ hcommit
  rw [← htree] at happart
  have hserves : ServesOn (bound call.inForce).reader s.machine s'.machine := by
    rcases buildLocal_eq_ok stages.build with
      ⟨hover, paths, s₁, s₂, hpaths, hmkdir, hlinks, hmachine⟩ | ⟨hflat, hsame⟩
    · rcases buildLocal_eq_ok stages'.build with
        ⟨-, paths', t₁, t₂, hpaths', hmkdir', hlinks', hmachine'⟩ | ⟨hflat, -⟩
      · obtain rfl : paths = paths' := Option.some.inj (hpaths.symm.trans hpaths')
        rw [hmachine, hmachine']
        exact overlay_alike hover hpaths (stages.paths paths hpaths) hground hdir htidy htidy' htree'
          happart (hnames.nested hover hpaths) (hnames'.nested hover hpaths) hmkdir hmkdir' hlinks hlinks'
      · cases hover.symm.trans hflat
    · rcases buildLocal_eq_ok stages'.build with ⟨hover, -⟩ | ⟨-, hsame'⟩
      · cases hover.symm.trans hflat
      · exact flat_alike hflat hground hdir (htidy.sameDisk hsame) (htidy'.sameDisk hsame') htree'
          happart (hnames.flat hflat) (hnames'.flat hflat)
  have hsource : s.source = bound call.inForce := refresh_source hrun
  have hsource' : s'.source = bound call.inForce := refresh_source hrun'
  refine ⟨hsha, fun name => ?_, fun name => ?_, fun name => ?_⟩
  · rw [hsource, hsource']
    exact hserves.hasSkill name
  · rw [hsource, hsource']
    exact hserves.skillDir name
  · rw [hsource, hsource']
    exact hserves.content name

/-- **Histories that are forgotten**: those that begin with the url of the refresh and do not disturb
its source. -/
theorem history_forgotten (g : Git C) {m₀ m m' : Machine C} {cacheDir : String} {D : Location}
    (hu : Unused m₀ (purePath cacheDir) D) (hword : isDashed (purePath cacheDir).text = false)
    {call : RefreshCall} (hcall : call.Plain g.toGitProgram (purePath cacheDir))
    (hreads : ∀ commit, call.remotes call.source.repoUrl call.inForce.ref = some commit →
      ReadsApart D (made m₀ (purePath cacheDir))
        (g.tree commit call.inForce.allowedSkillPaths) call.inForce)
    {history history' : List RefreshCall}
    (hbefore : Preceded g.toGitProgram (purePath cacheDir) call.source.repoUrl history)
    (hbefore' : Preceded g.toGitProgram (purePath cacheDir) call.source.repoUrl history')
    (hnames : Undisturbed call.inForce (leftNames history))
    (hnames' : Undisturbed call.inForce (leftNames history'))
    (hrun : Refreshes g.toGitProgram m₀ history m)
    (hrun' : Refreshes g.toGitProgram m₀ history' m') :
    Forgets g.toGitProgram m m' call := by
  have hsliced := purePath_sliced cacheDir
  refine refresh_alike hu hsliced hword hcall hreads hnames hnames' ?_ ?_
  · exact (refreshes_tidy hu hsliced hword hbefore hrun).imp_left fun h => ⟨h.2, rfl⟩
  · exact (refreshes_tidy hu hsliced hword hbefore' hrun').imp_left fun h => ⟨h.2, rfl⟩

end Alike

/-! ## Checkouts without links -/

/-- Without an overlay, a tree without links is read apart from the git directory and the overlay,
in a cache directory given by its own names. -/
theorem readsApart_flat {source : GitSkillSource} {D : Location} {base : Machine C} {t : Tree C}
    (hflat : overlaid source = false) (hdir : source.cacheDir = ⟨true, D⟩)
    (hsliced : ∀ name ∈ D, Sliced name) (hD : ∀ name ∈ D, isEntryName name = true)
    (hbase : ∀ q, q <+: D → ∀ target, base.disk.get? q ≠ some (.link target))
    (htree : ∀ rest target, t rest ≠ some (.link target)) : ReadsApart D base t source where
  paths hover := by
    rw [hflat] at hover
    cases hover
  overlay hover := by
    rw [hflat] at hover
    cases hover
  flat _ m hm name hname hgit hover := by
    have hpath : skillPath source name = PosixPath.child ⟨true, D⟩ name := by
      rw [skillPath_eq (by rw [hdir]; exact hsliced), skillRoot, hflat, if_neg Bool.false_ne_true,
        hdir, sys_of_absolute rfl]
    rw [hpath]
    intro rel hrel m' hsame
    have hnames : ∀ n ∈ D ++ [name] ++ rel, isEntryName n = true := by
      intro n hn
      rcases List.mem_append.mp hn with hn | hn
      · rcases List.mem_append.mp hn with hn | hn
        · exact hD n hn
        · rw [List.mem_singleton.mp hn]
          exact isEntryName_of_isPlainName hname
      · exact hrel n hn
    -- a prefix of the path is above the checkout or an entry of it
    have hprefix : ∀ q, q <+: D ++ [name] ++ rel →
        q <+: D ∨ ∃ rest, q = D ++ rest ∧ rest.head? = some name := by
      intro q hq
      rw [List.append_assoc] at hq
      rcases List.prefix_or_prefix_of_prefix hq (List.prefix_append D _) with hq' | ⟨rest, rfl⟩
      · exact .inl hq'
      · rcases List.prefix_cons_iff.mp ((List.prefix_append_right_inj D).mp hq) with rfl |
          ⟨more, rfl, -⟩
        · exact .inl (by rw [List.append_nil])
        · exact .inr ⟨name :: more, rfl, rfl⟩
    refine lookup_agree hnames (fun q hq target => ?_) fun q hq => ?_
    · rcases hprefix q hq with hq | ⟨rest, rfl, hrest⟩
      · rw [hm.outside.2 q fun hbelow => hbelow.2 (hq.eq_of_length_le hbelow.1.length_le)]
        exact hbase q hq target
      · have hne : rest ≠ [] := by
          rintro rfl
          cases hrest
        rw [hm.tree rest ⟨hne, by rw [hrest]; exact fun h => hgit (Option.some.inj h)⟩
          (by rw [hrest]; exact fun h => hover (Option.some.inj h))]
        exact htree rest target
    · refine hsame.same q fun place hplace hpre => ?_
      have hentry : D ++ [name] <+: D ++ [name] ++ rel := List.prefix_append _ _
      rcases hplace with rfl | rfl
      · exact hgit (entry_prefix_inj hentry (hpre.trans hq))
      · exact hover (entry_prefix_inj hentry (hpre.trans hq))

/-! ## Histories of a cache directory -/

/-- Two directories, one in the other, that are both skills. -/
def skillInSkill : WorkTree where
  entries := [(["d"], .dir), (["d", "SKILL.md"], .file none), (["d", "b"], .dir),
    (["d", "b", "SKILL.md"], .file none)]
  inTree := by
    simp only [List.forall_mem_cons, InTree]
    decide

/-- A refresh of a repository, each of which has one commit, called like it. -/
def refreshOf (repoUrl : String) (allowedSkillPaths : Option (List String)) : RefreshCall where
  remotes url _ := some url
  source := { repoUrl, ref := "main", cacheDir := purePath "/cache", allowedSkillPaths }
  ref := none

/-- Its run in a machine. -/
def runOf (call : RefreshCall) (m : Machine GitFile) :
    Except RefreshError RefreshResult × Refreshing GitFile :=
  call.run (oneTreeProgram plainInterpreter skillInSkill) m

/-- The machine before any refresh. -/
def unusedMachine : Machine GitFile := { disk := .empty }

/-- The commit of a run that returned, and whether the source has a skill `b`. -/
def seenOf (out : Except RefreshError RefreshResult × Refreshing GitFile) :
    Option (String × Bool) :=
  match out.1 with
  | .ok r => some (r.ref, out.2.source.reader.hasSkill out.2.machine "b")
  | .error _ => none

theorem seenOf_eq_some {call : RefreshCall} {m : Machine GitFile} {commit : String} {b : Bool}
    (h : seenOf (runOf call m) = some (commit, b)) :
    ∃ r s, call.run (oneTreeProgram plainInterpreter skillInSkill) m = (.ok r, s) ∧
      s = (runOf call m).2 ∧ r.ref = commit ∧ s.source.reader.hasSkill s.machine "b" = b := by
  unfold seenOf runOf at *
  generalize call.run _ m = out at h ⊢
  obtain ⟨answer, s⟩ := out
  cases answer with
  | ok r =>
    cases h
    exact ⟨r, s, rfl, rfl, rfl, rfl⟩
  | error e => cases h

/-- Refreshes that return are forgotten only where they show the same. -/
theorem seenOf_of_forgets {call : RefreshCall} {m m' : Machine GitFile} {seen seen' : String × Bool}
    (h : Forgets (oneTreeProgram plainInterpreter skillInSkill) m m' call)
    (hseen : seenOf (runOf call m) = some seen) (hseen' : seenOf (runOf call m') = some seen') :
    seen' = seen := by
  obtain ⟨r, s, hrun, -, hcommit, hskill⟩ := seenOf_eq_some hseen
  obtain ⟨r', s', hrun', -, hcommit', hskill'⟩ := seenOf_eq_some hseen'
  have hserves := h r s r' s' hrun hrun'
  refine Prod.ext ?_ ?_
  · rw [← hcommit, ← hcommit', hserves.commit]
  · rw [← hskill, ← hskill', hserves.hasSkill]

/-- One refresh that returns is a history. -/
theorem refreshes_one {call : RefreshCall} {m : Machine GitFile} {seen : String × Bool}
    (h : seenOf (runOf call m) = some seen) :
    Refreshes (oneTreeProgram plainInterpreter skillInSkill) m [call] (runOf call m).2.machine := by
  obtain ⟨r, s, hrun, hs, -⟩ := seenOf_eq_some h
  refine .snoc .nil (RefreshCall.completed_eq_some.mpr ⟨r, s, hrun, ?_⟩)
  rw [hs]

theorem unusedMachine_unused : Unused unusedMachine (purePath "/cache") ["cache"] where
  leads := ⟨Disk.isDirAt_iff.mp (by decide +kernel), by decide +kernel⟩
  empty := by decide +kernel
  parent := ⟨[], by decide +kernel, by decide +kernel⟩

theorem skillInSkill_overlay (rest : Location) :
    skillInSkill.tree (overlayName :: rest) = none := by
  by_contra hsome
  obtain ⟨e, he⟩ := Option.ne_none_iff_exists'.mp hsome
  have hhead : ∀ entry ∈ skillInSkill.entries, entry.1.head? ≠ some overlayName := by decide
  exact hhead _ (tree_mem he) rfl

theorem skillInSkill_noLink (rest : Location) (target : String) :
    skillInSkill.tree rest ≠ some (.link target) := by
  intro hlink
  have hplain : ∀ entry ∈ skillInSkill.entries, entry.2.isLink = false := by decide
  exact Bool.noConfusion (hplain _ (tree_mem hlink))

theorem refreshOf_plain {repoUrl : String} {paths : Option (List String)}
    (hurl : isDashed repoUrl = false)
    (hpaths : ∀ ps, paths = some ps → ∀ p ∈ ps, isDashed p = false) :
    (refreshOf repoUrl paths).Plain (oneTreeProgram plainInterpreter skillInSkill)
      (purePath "/cache") where
  cacheDir := rfl
  url := hurl
  ref := (by decide : isDashed "main" = false)
  paths := hpaths
  trees _ _ _ _ _ rest := skillInSkill_overlay rest

/-- A nested skill was allowed before; then everything is. -/
theorem history_forgotten_nested :
    let before := (runOf (refreshOf "a" (some ["d/b"])) unusedMachine).2.machine
    seenOf (runOf (refreshOf "a" none) before) = some ("a", false) ∧
      Forgets (oneTreeProgram plainInterpreter skillInSkill) before unusedMachine
        (refreshOf "a" none) := by
  have hplain : (refreshOf "a" (some ["d/b"])).Plain (oneTreeProgram plainInterpreter skillInSkill)
      (purePath "/cache") := by
    refine refreshOf_plain (by decide) ?_
    rintro ps ⟨⟩
    decide
  have hplain' : (refreshOf "a" none).Plain (oneTreeProgram plainInterpreter skillInSkill)
      (purePath "/cache") := by
    refine refreshOf_plain (by decide) ?_
    rintro ps ⟨⟩
  have hseen : seenOf (runOf (refreshOf "a" (some ["d/b"])) unusedMachine) = some ("a", true) := by
    decide +kernel
  have hbefore : Preceded (oneTreeProgram plainInterpreter skillInSkill) (purePath "/cache") "a"
      [refreshOf "a" (some ["d/b"])] := by
    refine ⟨fun earlier hearlier => ?_, fun earlier hearlier => ?_⟩
    · rw [List.mem_singleton.mp hearlier]
      exact hplain
    · cases hearlier
      rfl
  have hnothing : Preceded (oneTreeProgram plainInterpreter skillInSkill) (purePath "/cache") "a"
      [] := by
    refine ⟨fun earlier hearlier => ?_, fun earlier hearlier => ?_⟩
    · cases hearlier
    · cases hearlier
  have hnames : Undisturbed (refreshOf "a" none).inForce
      (leftNames [refreshOf "a" (some ["d/b"])]) := by
    rintro name ⟨call, hcall, hname⟩
    rw [List.mem_singleton.mp hcall] at hname
    have hlinked : linkedNames (refreshOf "a" (some ["d/b"])).source = ["b"] := by decide +kernel
    rw [hlinked, List.mem_singleton] at hname
    rw [hname]
    exact (by decide : "b" ≠ "SKILL.md")
  have hnone : Undisturbed (refreshOf "a" none).inForce (leftNames []) := by
    rintro name ⟨call, hcall, -⟩
    cases hcall
  refine ⟨by decide +kernel, ?_⟩
  refine history_forgotten (oneTree plainInterpreter skillInSkill) unusedMachine_unused
    (by decide +kernel) hplain' (fun commit _ => ?_) hbefore hnothing hnames hnone
    (refreshes_one hseen) .nil
  refine readsApart_flat rfl (by decide +kernel) (purePath_sliced "/cache") (by decide) ?_
    skillInSkill_noLink
  intro q hq target hlink
  have hdir : (made unusedMachine (purePath "/cache")).disk.get? q = some .dir := by
    rcases List.prefix_cons_iff.mp hq with rfl | ⟨more, rfl, hmore⟩
    · rfl
    · rw [List.prefix_nil.mp hmore]
      exact Disk.isDirAt_iff.mp (by decide +kernel)
  rw [hdir] at hlink
  cases hlink

/-- **What a history leaves behind.** A cache directory that was cloned from another repository
keeps fetching from it, and an overlay keeps the names of a refresh that allowed other paths. -/
theorem history_remembered :
    (∃ m, Refreshes (oneTreeProgram plainInterpreter skillInSkill) unusedMachine
        [refreshOf "b" none] m ∧
      ¬ Forgets (oneTreeProgram plainInterpreter skillInSkill) m unusedMachine
        (refreshOf "a" none)) ∧
    ∃ m, Refreshes (oneTreeProgram plainInterpreter skillInSkill) unusedMachine
        [refreshOf "a" (some ["d/b"])] m ∧
      ¬ Forgets (oneTreeProgram plainInterpreter skillInSkill) m unusedMachine
        (refreshOf "a" (some ["d", "x/y"])) := by
  constructor
  · have hearlier : seenOf (runOf (refreshOf "b" none) unusedMachine) = some ("b", false) := by
      decide +kernel
    refine ⟨_, refreshes_one hearlier, fun h => ?_⟩
    have hother : seenOf (runOf (refreshOf "a" none)
        (runOf (refreshOf "b" none) unusedMachine).2.machine) = some ("b", false) := by
      decide +kernel
    have hnew : seenOf (runOf (refreshOf "a" none) unusedMachine) = some ("a", false) := by
      decide +kernel
    exact absurd (seenOf_of_forgets h hother hnew) (by decide)
  · have hearlier : seenOf (runOf (refreshOf "a" (some ["d/b"])) unusedMachine) =
        some ("a", true) := by
      decide +kernel
    refine ⟨_, refreshes_one hearlier, fun h => ?_⟩
    have hstale : seenOf (runOf (refreshOf "a" (some ["d", "x/y"]))
        (runOf (refreshOf "a" (some ["d/b"])) unusedMachine).2.machine) = some ("a", true) := by
      decide +kernel
    have hnew : seenOf (runOf (refreshOf "a" (some ["d", "x/y"])) unusedMachine) =
        some ("a", false) := by
      decide +kernel
    exact absurd (seenOf_of_forgets h hstale hnew) (by decide)

end ClawEngine.Skills
