import ClawEngine.Laws.LexicalConfinement
import ClawEngine.Laws.Retries
import ClawEngine.Laws.ReusedCache

/-!
# Where the skills of a workspace come from

A refresh checks a commit out and makes the overlay; a source then answers for the directories in
its root; a call of `provision` copies what it answers into the workspace. Here the three are taken
together. Each skill that a call provisions from a refreshed source is a directory of the commit
that the repository has for the ref in force: the one under its name, or, where an allowed path is
nested, the one that the last allowed path with this name leads to.

The checkout has no links, and the allowed paths lead into it. What earlier refreshes left in the
overlay does not get in the way of the source.
-/

set_option autoImplicit false

namespace ClawEngine.Skills

open ClawEngine.Core ClawEngine.Core.Argv ClawEngine.Posix ClawEngine.Context
  ClawEngine.Identity
open ClawEngine.Orchestration (plainInterpreter)

variable {C : Type}

/-! ## Paths without links below them -/

section Seen

variable {m : Machine C} {p : PosixPath} {q : Location}

theorem isLink_of_ne {e : Entry C} (h : ∀ target, e ≠ .link target) : e.isLink = false := by
  cases e with
  | link target => exact absurd rfl (h target)
  | dir => rfl
  | file content => rfl

/-- A path that leads to a directory without links sees what is on the disk. -/
theorem treeOf_leads (h : Leads m p q) (hlinks : NoLinks m q) : treeOf m p = m.disk.treeAt q := by
  funext rel
  by_cases hnil : rel = []
  · subst hnil
    simp only [treeOf_nil, entryOf, h.found, Disk.treeAt, List.append_nil]
  unfold treeOf
  split
  next hrel =>
    have hnames : ∀ name ∈ rel, isEntryName name = true := List.all_eq_true.mp hrel
    cases he : m.disk.get? (q ++ rel) with
    | some e =>
      have hlink : e.isLink = false := isLink_of_ne fun target heq =>
        hlinks _ (List.prefix_append q rel) target (heq ▸ he)
      simp only [entryOf, h.goesOn.located hnil he hlink true, Disk.treeAt]
    | none =>
      have hmissing := h.goesOn.not_found hnil hnames
        (fun r _ => hlinks _ (List.prefix_append q r)) he
      rw [Disk.treeAt, he, entryOf]
      split
      next r hfound => exact absurd hfound (hmissing r)
      · rfl
  next hrel =>
    rw [Disk.treeAt]
    by_contra hsome
    obtain ⟨e, he⟩ := Option.ne_none_iff_exists'.mp (Ne.symm hsome)
    refine hrel (List.all_eq_true.mpr fun name hname => ?_)
    exact Disk.names_of_some he name (List.mem_append_right q hname)

/-- A directory is a skill where its entry `SKILL.md` is a file, unless that is a link. -/
theorem isSkill_leads (h : Leads m p q)
    (hplain : ∀ target, m.disk.get? (q ++ ["SKILL.md"]) ≠ some (.link target)) :
    isSkill m p = true ↔ ∃ content, m.disk.get? (q ++ ["SKILL.md"]) = some (.file content) := by
  have hlook := h.goesOn.lookup_plain (by decide) hplain
  rw [isSkill_iff]
  constructor
  · rintro ⟨-, f, hfound, hfile⟩
    rw [hlook] at hfound
    split at hfound
    · cases hfound
    next hsome =>
      cases hfound
      cases he : m.disk.get? (q ++ ["SKILL.md"]) with
      | none => exact absurd he hsome
      | some e =>
        cases e with
        | dir =>
          rw [Disk.isDirAt_iff.mpr he] at hfile
          cases hfile
        | file content => exact ⟨content, rfl⟩
        | link target => exact absurd he (hplain target)
  · rintro ⟨content, he⟩
    refine ⟨⟨q, h.found, h.dir⟩, q ++ ["SKILL.md"], ?_, ?_⟩
    · rw [hlook, if_neg (by rw [he]; exact Option.some_ne_none _)]
    · rw [Disk.isDirAt, he]

end Seen

/-! ## The place of a skill in a checkout -/

/-- The last of the paths with this last segment. -/
def lastNamed? (paths : List String) (name : String) : Option String :=
  paths.reverse.find? fun p => baseName p = name

theorem lastNamed?_eq_some {paths : List String} {name p : String} :
    lastNamed? paths name = some p ↔ ∃ before after, paths = before ++ p :: after ∧
      baseName p = name ∧ name ∉ after.map baseName := by
  rw [lastNamed?, List.find?_eq_some_iff_append, decide_eq_true_eq]
  constructor
  · rintro ⟨hname, later, earlier, hsplit, hlater⟩
    refine ⟨earlier.reverse, later.reverse, ?_, hname, ?_⟩
    · rw [← List.reverse_reverse paths, hsplit, List.reverse_append, List.reverse_cons,
        List.append_assoc, List.singleton_append]
    · rintro hmem
      obtain ⟨p', hp', hname'⟩ := List.mem_map.mp hmem
      have hne := hlater p' (List.mem_reverse.mp hp')
      simp only [hname', decide_true, Bool.not_true, Bool.false_eq_true] at hne
  · rintro ⟨before, after, rfl, hname, hafter⟩
    refine ⟨hname, after.reverse, before.reverse, ?_, fun p' hp' => ?_⟩
    · rw [List.reverse_append, List.reverse_cons, List.append_assoc, List.singleton_append]
    · rw [Bool.not_eq_true', decide_eq_false_iff_not]
      rintro rfl
      exact hafter (List.mem_map_of_mem (List.mem_reverse.mp hp'))

theorem mem_of_lastNamed? {paths : List String} {name p : String}
    (h : lastNamed? paths name = some p) : p ∈ paths :=
  List.mem_reverse.mp (List.mem_of_find?_eq_some h)

theorem exists_lastNamed {paths : List String} {name : String} (h : name ∈ paths.map baseName) :
    ∃ p, lastNamed? paths name = some p := by
  obtain ⟨p, hp, hname⟩ := List.mem_map.mp h
  refine Option.isSome_iff_exists.mp (List.find?_isSome.mpr ⟨p, List.mem_reverse.mpr hp, ?_⟩)
  exact decide_eq_true hname

/-- Where the source has the skill from in a checkout: the entry under its name, or with an overlay
what the last allowed path of this name leads to. -/
def placeOf (source : GitSkillSource) (name : String) : Option Location :=
  if overlaid source then
    (lastNamed? (source.allowedSkillPaths.getD []) name).map fun p => (purePath p).names
  else some [name]

/-- A skill of a tree. -/
def HasSkill (t : Tree C) (place : Location) : Prop :=
  t place = some .dir ∧ ∃ content, t (place ++ ["SKILL.md"]) = some (.file content)

/-- The path leads into the working tree, and not into the overlay. -/
structure IntoTree (place : Location) : Prop where
  inTree : InTree place
  overlay : place.head? ≠ some overlayName

theorem IntoTree.append {place : Location} (h : IntoTree place) (rel : Location) :
    IntoTree (place ++ rel) := by
  have hhead : (place ++ rel).head? = place.head? := by
    rw [List.head?_append, Option.or_of_isSome (List.isSome_head?.mpr h.inTree.1)]
  refine ⟨⟨List.append_ne_nil_of_left_ne_nil h.inTree.1 rel, ?_⟩, ?_⟩
  · rw [hhead]
    exact h.inTree.2
  · rw [hhead]
    exact h.overlay

/-- The names of an allowed path are names of entries, and there are some. -/
theorem allowed_names {py : Interpreter} {p : String} (h : validateAllowedPath py p = .ok ()) :
    (purePath p).names ≠ [] ∧ ∀ name ∈ (purePath p).names, isEntryName name = true := by
  rw [purePath_names]
  refine ⟨kept_of_allowed h, fun name hname => ?_⟩
  obtain ⟨hmem, hkept⟩ := List.mem_filter.mp hname
  obtain ⟨hempty, hdot⟩ : name ≠ "" ∧ name ≠ "." := of_decide_eq_true hkept
  have hsliced : Sliced name := purePath_sliced p name (by rwa [purePath_names])
  have hslash : name.toList.contains '/' = false := by
    rw [← Bool.not_eq_true, List.contains_iff_mem]
    exact hsliced.2
  simp only [isEntryName, hempty, hdot, (validateAllowedPath_segments h name hmem).2, hslash, ne_eq,
    not_false_eq_true, decide_true, Bool.not_false, Bool.and_self]

/-! ## A cache directory after a refresh -/

/-- The cache directory as a refresh of the source leaves it, with the tree `t` checked out. -/
structure FreshCache (source : GitSkillSource) (D : Location) (t : Tree C) (m : Machine C) :
    Prop where
  ground : Ground source.cacheDir D m
  valid : ∀ p ∈ source.allowedSkillPaths.getD [], ∃ py, validateAllowedPath py p = .ok ()
  tree : ∀ rest, IntoTree rest → m.disk.get? (D ++ rest) = t rest
  gitDir : m.disk.get? (gitAt D) = some .dir ∧ m.disk.get? (gitAt D ++ ["SKILL.md"]) = none
  flat : overlaid source = false → (∀ target, m.disk.get? (overlayAt D) ≠ some (.link target)) ∧
    m.disk.get? (overlayAt D ++ ["SKILL.md"]) = none
  overlay : overlaid source = true → m.disk.get? (overlayAt D) = some .dir
  links : overlaid source = true → ∀ name e, m.disk.get? (overlayAt D ++ [name]) = some e →
    ∃ p, lastNamed? (source.allowedSkillPaths.getD []) name = some p ∧
      e = .link (source.cacheDir.joinText p).text
  linked : overlaid source = true → ∀ name p,
    lastNamed? (source.allowedSkillPaths.getD []) name = some p → t (purePath p).names ≠ none →
    m.disk.get? (overlayAt D ++ [name]) = some (.link (source.cacheDir.joinText p).text)

/-- With an overlay, the cache directory is given by an absolute path, and the allowed paths lead
into the working tree. -/
structure OverlaysTree (source : GitSkillSource) : Prop where
  absolute : overlaid source = true → source.cacheDir.absolute = true
  paths : overlaid source = true → ∀ p ∈ source.allowedSkillPaths.getD [],
    IntoTree (purePath p).names

/-- A tree without links. -/
def Linkless (t : Tree C) : Prop := ∀ rest target, t rest ≠ some (.link target)

namespace FreshCache

variable {source : GitSkillSource} {D place : Location} {t : Tree C} {m m' : Machine C}
  {name : String}

/-- It is so as long as nothing happens in the cache directory. -/
theorem mono (h : FreshCache source D t m) (hstands : StandsAt m' source.cacheDir.sys D)
    (hsame : ∀ q, D <+: q → m'.disk.get? q = m.disk.get? q) : FreshCache source D t m' := by
  have hbelow : ∀ rest, m'.disk.get? (D ++ rest) = m.disk.get? (D ++ rest) := fun rest =>
    hsame _ (List.prefix_append D rest)
  have hgit : ∀ rest, m'.disk.get? (gitAt D ++ rest) = m.disk.get? (gitAt D ++ rest) := by
    intro rest
    rw [gitAt, List.append_assoc, hbelow]
  have hover : ∀ rest, m'.disk.get? (overlayAt D ++ rest) = m.disk.get? (overlayAt D ++ rest) := by
    intro rest
    rw [overlayAt, List.append_assoc, hbelow]
  refine ⟨⟨hstands, h.ground.sliced⟩, h.valid, fun rest hrest => ?_, ?_, ?_, ?_, ?_, ?_⟩
  · rw [hbelow, h.tree rest hrest]
  · rw [hgit, show m'.disk.get? (gitAt D) = m.disk.get? (gitAt D) from hbelow _]
    exact h.gitDir
  · rw [hover, show m'.disk.get? (overlayAt D) = m.disk.get? (overlayAt D) from hbelow _]
    exact h.flat
  · rw [show m'.disk.get? (overlayAt D) = m.disk.get? (overlayAt D) from hbelow _]
    exact h.overlay
  · intro hoverlaid name e
    rw [hover]
    exact h.links hoverlaid name e
  · intro hoverlaid name p
    rw [hover]
    exact h.linked hoverlaid name p

theorem goesOn (h : FreshCache source D t m) : GoesOn m source.cacheDir D :=
  h.ground.stands.leads.goesOn.of_sys

/-- No link stands on the way from the cache directory to a place of the tree. -/
theorem way (h : FreshCache source D t m) (ht : Linkless t) (hplace : IntoTree place) :
    ∀ q, q <+: place → ∀ target, m.disk.get? (D ++ q) ≠ some (.link target) := by
  rintro q ⟨rest, rfl⟩ target
  cases q with
  | nil =>
    rw [List.append_nil, h.ground.stands.leads.dir]
    intro hlink
    cases hlink
  | cons first q =>
    have hfirst : IntoTree (first :: q) :=
      ⟨⟨List.cons_ne_nil first q, hplace.inTree.2⟩, hplace.overlay⟩
    rw [h.tree _ hfirst]
    exact ht _ target

theorem noLinks (h : FreshCache source D t m) (ht : Linkless t) (hplace : IntoTree place) :
    NoLinks m (D ++ place) := by
  rintro p ⟨rel, rfl⟩ target
  rw [List.append_assoc, h.tree _ (hplace.append rel)]
  exact ht _ target

/-- A path that leads to a place of the tree sees what is there in the tree. -/
theorem sees (h : FreshCache source D t m) (ht : Linkless t) (hplace : IntoTree place)
    {p : PosixPath} (hleads : Leads m p (D ++ place)) :
    treeOf m p = fun rel => t (place ++ rel) := by
  rw [treeOf_leads hleads (h.noLinks ht hplace)]
  funext rel
  rw [Disk.treeAt, List.append_assoc, h.tree _ (hplace.append rel)]

/-- What a path that is found from the cache directory on leads to. -/
theorem leads (h : FreshCache source D t m) (ht : Linkless t) (hplace : IntoTree place)
    (hnames : ∀ name ∈ place, isEntryName name = true) {q : Location}
    (hfound : lookup m true (source.cacheDir.descend place) = .found q)
    (hdir : m.disk.get? q = some .dir) : Leads m (source.cacheDir.descend place) (D ++ place) := by
  have hspelled := h.goesOn.spelled hplace.inTree.1 hnames (h.way ht hplace) true
  rw [hfound] at hspelled
  cases hspelled with
  | found _ => exact ⟨hdir, hfound⟩

/-- A path that leads to a place of the tree is a skill where the tree has one. -/
theorem isSkill_iff_hasSkill (h : FreshCache source D t m) (ht : Linkless t)
    (hplace : IntoTree place) {p : PosixPath} (hleads : Leads m p (D ++ place)) :
    isSkill m p = true ↔ HasSkill t place := by
  have hfile : m.disk.get? (D ++ place ++ ["SKILL.md"]) = t (place ++ ["SKILL.md"]) := by
    rw [List.append_assoc, h.tree _ (hplace.append _)]
  have hdir : t place = some .dir := (h.tree place hplace).symm.trans hleads.dir
  rw [isSkill_leads hleads (h.noLinks ht hplace _ (List.prefix_append _ _)), hfile]
  exact ⟨fun hskill => ⟨hdir, hskill⟩, fun hskill => hskill.2⟩

/-- The place of a skill is led to. -/
theorem leads_of_hasSkill (h : FreshCache source D t m) (hplace : IntoTree place)
    (hskill : HasSkill t place) : Leads m (source.cacheDir.descend place) (D ++ place) := by
  have hdir : m.disk.get? (D ++ place) = some .dir := (h.tree place hplace).trans hskill.1
  exact ⟨hdir, h.goesOn.located hplace.inTree.1 hdir rfl true⟩

/-! ## What the source answers -/

theorem flat_path (h : FreshCache source D t m) (hflat : overlaid source = false) (name : String) :
    skillPath source name = source.cacheDir.sys.child name := by
  rw [skillPath_eq h.ground.sliced, skillRoot, hflat, if_neg Bool.false_ne_true]

/-- Without an overlay, the skills are the directories under their names. -/
theorem flat_leads (h : FreshCache source D t m) (ht : Linkless t) (hflat : overlaid source = false)
    (hname : isPlainName name = true) (hskill : isSkill m (skillPath source name) = true) :
    IntoTree [name] ∧ Leads m (skillPath source name) (D ++ [name]) := by
  have hentry := isEntryName_of_isPlainName hname
  have hchild : isSkill m (source.cacheDir.child name) = true := by
    rw [← isSkill_sys, ← h.flat_path hflat]
    exact hskill
  have hmissing : ∀ other, isEntryName other = true →
      (∀ target, m.disk.get? (D ++ [other]) ≠ some (.link target)) →
      m.disk.get? (D ++ [other, "SKILL.md"]) = none → name ≠ other := by
    rintro other hother hplain hnone rfl
    rw [isSkill_of_missing h.goesOn hother hplain hnone] at hchild
    cases hchild
  have hgit : name ≠ ".git" := by
    refine hmissing _ (by decide) (fun target hlink => ?_) ?_
    · rw [show D ++ [".git"] = gitAt D from rfl, h.gitDir.1] at hlink
      cases hlink
    · rw [← h.gitDir.2, gitAt, List.append_assoc]
      rfl
  have hover : name ≠ overlayName := by
    refine hmissing _ overlayName_entry (h.flat hflat).1 ?_
    rw [← (h.flat hflat).2, overlayAt, List.append_assoc]
    rfl
  have hplace : IntoTree [name] :=
    ⟨⟨List.cons_ne_nil _ _, fun heq => hgit (Option.some.inj heq)⟩,
      fun heq => hover (Option.some.inj heq)⟩
  obtain ⟨⟨q, hfound, hdir⟩, -⟩ := isSkill_iff.mp hchild
  have hleads := h.leads ht hplace (by simpa only [List.forall_mem_singleton]) hfound hdir
  refine ⟨hplace, hleads.dir, ?_⟩
  rw [h.flat_path hflat]
  exact (lookup_descend_sys (List.cons_ne_nil _ _) true).trans hleads.found

theorem overlay_path (h : FreshCache source D t m) (hpaths : OverlaysTree source)
    (hover : overlaid source = true) (name : String) :
    skillPath source name = (source.cacheDir.child overlayName).child name := by
  rw [skillPath_eq h.ground.sliced, skillRoot, hover, if_pos rfl]
  exact congrArg (PosixPath.child · name) (sys_of_absolute (hpaths.absolute hover))

theorem stands (h : FreshCache source D t m) (hpaths : OverlaysTree source)
    (hover : overlaid source = true) : StandsAt m source.cacheDir D := by
  have hsys : source.cacheDir.sys = source.cacheDir := sys_of_absolute (hpaths.absolute hover)
  exact hsys ▸ h.ground.stands

/-- With an overlay, they are where the last of the allowed paths with this name leads to. -/
theorem overlay_place (h : FreshCache source D t m) (hpaths : OverlaysTree source)
    (ht : Linkless t) (hover : overlaid source = true) (hname : isPlainName name = true)
    (hskill : isSkill m (skillPath source name) = true) :
    ∃ p, lastNamed? (source.allowedSkillPaths.getD []) name = some p ∧
      IntoTree (purePath p).names ∧ Leads m (skillPath source name) (D ++ (purePath p).names) := by
  have hentry := isEntryName_of_isPlainName hname
  have habs := hpaths.absolute hover
  rw [h.overlay_path hpaths hover] at hskill ⊢
  -- the overlay has a link under the name
  have hgoes : GoesOn m (source.cacheDir.child overlayName) (overlayAt D) :=
    h.goesOn.child (h.overlay hover)
  obtain ⟨⟨q, hfound, hdir⟩, -⟩ := isSkill_iff.mp hskill
  cases hthere : m.disk.get? (overlayAt D ++ [name]) with
  | none =>
    have hlook := hgoes.lookup_plain hentry (by rw [hthere]; exact nofun)
    rw [hthere, if_pos rfl, hfound] at hlook
    cases hlook
  | some e =>
    obtain ⟨p, hp, rfl⟩ := h.links hover name e hthere
    have hmem := mem_of_lastNamed? hp
    obtain ⟨py, hvalid⟩ := h.valid p hmem
    have hrelative := validateAllowedPath_relative hvalid
    obtain ⟨-, q', hq, hq'⟩ := (overlay_leads (h.stands hpaths hover) habs h.ground.sliced hrelative
      (h.overlay hover) hentry hthere).1 hskill
    cases hfound.symm.trans hq
    have hplace := hpaths.paths hover p hmem
    rw [joinText_relative _ hrelative] at hq'
    have hleads := h.leads ht hplace (allowed_names hvalid).2 hq' hdir
    cases hq'.symm.trans hleads.found
    exact ⟨p, hp, hplace, hdir, hfound⟩

/-- **The skills of a refreshed source** are the skills of the checkout at their places, and the
source sees them as they are in it. -/
theorem serves (h : FreshCache source D t m) (hpaths : OverlaysTree source) (ht : Linkless t)
    (hname : isPlainName name = true) (hskill : isSkill m (skillPath source name) = true) :
    ∃ place, placeOf source name = some place ∧ IntoTree place ∧ HasSkill t place ∧
      treeOf m (skillPath source name) = fun rel => t (place ++ rel) := by
  have hboth : ∃ place, placeOf source name = some place ∧ IntoTree place ∧
      Leads m (skillPath source name) (D ++ place) := by
    cases hover : overlaid source with
    | false =>
      refine ⟨[name], ?_, h.flat_leads ht hover hname hskill⟩
      rw [placeOf, hover, if_neg Bool.false_ne_true]
    | true =>
      obtain ⟨p, hp, hplace, hleads⟩ := h.overlay_place hpaths ht hover hname hskill
      refine ⟨(purePath p).names, ?_, hplace, hleads⟩
      rw [placeOf, hover, if_pos rfl, hp, Option.map_some]
  obtain ⟨place, hsome, hplace, hleads⟩ := hboth
  exact ⟨place, hsome, hplace, (h.isSkill_iff_hasSkill ht hplace hleads).mp hskill,
    h.sees ht hplace hleads⟩

/-- **And all of them**, where the way to the cache directory follows few links. -/
theorem serves_all (h : FreshCache source D t m) (hpaths : OverlaysTree source) (ht : Linkless t)
    (hspare : overlaid source = true →
      walk m.disk true spareLinks [] source.cacheDir.names = .found D)
    (hname : isPlainName name = true) (hsome : placeOf source name = some place)
    (hplace : IntoTree place) (hskill : HasSkill t place) :
    isSkill m (skillPath source name) = true := by
  have hleads := h.leads_of_hasSkill hplace hskill
  unfold placeOf at hsome
  cases hover : overlaid source with
  | false =>
    rw [hover, if_neg Bool.false_ne_true] at hsome
    cases hsome
    rw [h.flat_path hover, isSkill_sys]
    exact (h.isSkill_iff_hasSkill ht hplace hleads).mpr hskill
  | true =>
    rw [hover, if_pos rfl, Option.map_eq_some_iff] at hsome
    obtain ⟨p, hp, rfl⟩ := hsome
    have hmem := mem_of_lastNamed? hp
    obtain ⟨py, hvalid⟩ := h.valid p hmem
    have hrelative := validateAllowedPath_relative hvalid
    have habs := hpaths.absolute hover
    have hstands := h.stands hpaths hover
    have hlink := h.linked hover name p hp (by rw [hskill.1]; exact Option.some_ne_none _)
    have hjoin : (source.cacheDir.joinText p).names =
        source.cacheDir.names ++ (purePath p).names := by
      rw [joinText_relative _ hrelative]
      rfl
    obtain ⟨content, hcontent⟩ := hskill.2
    have hfile : m.disk.get? (D ++ ((purePath p).names ++ ["SKILL.md"])) =
        some (.file content) := (h.tree _ (hplace.append _)).trans hcontent
    -- the way to the cache directory, and on from there
    have hon : ∀ names e, names ≠ [] → m.disk.get? (D ++ names) = some e → e.isLink = false →
        walk m.disk true spareLinks [] (source.cacheDir.names ++ names) = .found (D ++ names) := by
      intro names e hnil he hplain
      obtain ⟨b, hb⟩ := walk_append hnil hstands.1 (hspare hover)
      rw [hb]
      exact walk_located he hplain
    rw [h.overlay_path hpaths hover]
    refine (overlay_leads hstands habs h.ground.sliced hrelative (h.overlay hover)
      (isEntryName_of_isPlainName hname) hlink).2 _ _ content ?_ hleads.dir ?_ hfile
    · rw [hjoin]
      exact hon _ _ hplace.inTree.1 hleads.dir rfl
    · rw [hjoin, List.append_assoc]
      exact hon _ _ (List.append_ne_nil_of_left_ne_nil hplace.inTree.1 _) hfile rfl

end FreshCache

/-! ## A refresh leaves it so -/

section Refresh

variable {g : Git C} {dir : PosixPath} {D : Location} {m₀ m : Machine C} {url : String}
  {names : Set String} {source : GitSkillSource} {base : Machine C} {r : Repository}

/-- What the last stage leaves without an overlay. -/
theorem freshCache_flat (h : Tidy g.toGitProgram D base r names m) (hg : Ground dir D base)
    (hdir : source.cacheDir = dir) (hflat : overlaid source = false)
    (hvalid : ∀ p ∈ source.allowedSkillPaths.getD [], ∃ py, validateAllowedPath py p = .ok ())
    (hnames : "SKILL.md" ∉ names) : FreshCache source D (g.tracked r) m := by
  subst hdir
  have hnot : overlaid source ≠ true := by
    rw [hflat]
    exact Bool.false_ne_true
  have htree : ∀ rest, IntoTree rest → m.disk.get? (D ++ rest) = g.tracked r rest :=
    fun rest hrest => h.tracked rest hrest.inTree hrest.overlay
  refine ⟨⟨hg.stands.mono h.outside, hg.sliced⟩, hvalid, htree, g.gitDir _ _ _ h.repository,
    fun _ => ⟨fun target hlink => ?_, ?_⟩, fun hover => absurd hover hnot,
    fun hover => absurd hover hnot, fun hover => absurd hover hnot⟩
  · rw [← List.append_nil (overlayAt D)] at hlink
    rcases h.overlay _ _ hlink with ⟨-, hdir⟩ | ⟨name, -, hnil, -⟩
    · cases hdir
    · cases hnil
  · by_contra hsome
    obtain ⟨e, he⟩ := Option.ne_none_iff_exists'.mp hsome
    rcases h.overlay _ e he with ⟨hnil, -⟩ | ⟨name, hname, hrest, -⟩
    · cases hnil
    · rw [← (List.cons.inj hrest).1] at hname
      exact hnames hname

/-- A path is there where its place has an entry that is no link. -/
theorem exists_joinText {p : String} {e : Entry C} (hstands : StandsAt m dir.sys D)
    (hrelative : p.toList.head? ≠ some '/') (hnil : (purePath p).names ≠ [])
    (he : m.disk.get? (D ++ (purePath p).names) = some e) (hplain : e.isLink = false) :
    exists? m (dir.joinText p) = true := by
  rw [joinText_relative _ hrelative, exists?,
    hstands.leads.goesOn.of_sys.located hnil he hplain true]

theorem linkedNames_eq {paths : List String} (hover : overlaid source = true)
    (hpaths : source.allowedSkillPaths = some paths) :
    linkedNames source = paths.map baseName := by
  rw [linkedNames, if_pos hover, hpaths, Option.getD_some]

/-- What the loop over the paths leaves under a name. -/
theorem linkAll_lastNamed {host : GitHost C} {paths : List String} {name p : String}
    {s s' : Refreshing C} (hm : HasOverlay dir D s.machine)
    (hentries : ∀ p' ∈ paths, isEntryName (baseName p') = true)
    (hp : lastNamed? paths name = some p)
    (h : linkAll host dir (dir.child overlayName) paths s = (.ok (), s')) :
    ∃ m₁, SameOff {overlayAt D} s.machine m₁ ∧
      s'.machine.disk.get? (overlayAt D ++ [name]) =
        if exists? m₁ (dir.joinText p) = true then some (.link (dir.joinText p).text)
        else none := by
  obtain ⟨before, after, hsplit, rfl, hafter⟩ := lastNamed?_eq_some.mp hp
  rw [hsplit] at h hentries
  exact linkAll_last hm hentries hafter h

/-- What the last stage leaves with an overlay: `h` says what was there before it, and `hafter` what
is there after. -/
theorem freshCache_overlay {host : GitHost C} {paths : List String} {s s₁ s₂ : Refreshing C}
    {names' : Set String} (h : Tidy g.toGitProgram D base r names s.machine)
    (hg : Ground dir D base) (hdir : source.cacheDir = dir) (hover : overlaid source = true)
    (hpaths : source.allowedSkillPaths = some paths)
    (hvalid : validateAllowedPaths host.py paths = .ok ())
    (hinto : OverlaysTree source) (ht : Linkless (g.tracked r))
    (hmkdir : mkdirHere (flatDirOf source) s.machine = (.ok (), s₁.machine))
    (hlinks : linkAll host source.cacheDir (flatDirOf source) paths s₁ = (.ok (), s₂))
    (hafter : Tidy g.toGitProgram D base r names' s₂.machine)
    (hnames : ∀ name ∈ names', name ∈ paths.map baseName) :
    FreshCache source D (g.tracked r) s₂.machine := by
  subst hdir
  have hentries := validateAllowedPaths_names hvalid
  obtain ⟨htidy, hoverlay, -⟩ := mkdirHere_tidy hg h hmkdir
  have hoverlay' := (linkAll_eq_ok hoverlay hentries hlinks).1
  have hall : source.allowedSkillPaths.getD [] = paths := by rw [hpaths, Option.getD_some]
  have htree : ∀ rest, IntoTree rest → s₂.machine.disk.get? (D ++ rest) = g.tracked r rest :=
    fun rest hrest => hafter.tracked rest hrest.inTree hrest.overlay
  refine ⟨⟨hoverlay'.stands, hg.sliced⟩, ?_, htree, g.gitDir _ _ _ hafter.repository, ?_,
    fun _ => hoverlay'.dir, ?_, ?_⟩
  · rw [hall]
    exact fun p hp => ⟨host.py, validateAllowedPaths_mem hvalid hp⟩
  · rw [hover]
    exact fun hflat => Bool.noConfusion hflat
  · intro _ name e he
    rw [hall]
    rcases hafter.overlay _ e he with ⟨hnil, -⟩ | ⟨name', hname', hrest, -⟩
    · cases hnil
    obtain rfl : name = name' := (List.cons.inj hrest).1
    obtain ⟨p, hp⟩ := exists_lastNamed (hnames name hname')
    refine ⟨p, hp, ?_⟩
    obtain ⟨m₁, -, hentry⟩ := linkAll_lastNamed hoverlay hentries hp hlinks
    rw [hentry] at he
    split at he
    · exact (Option.some.inj he).symm
    · cases he
  · intro _ name p hp hthere
    rw [hall] at hp
    obtain ⟨m₁, hsame₁, hentry⟩ := linkAll_lastNamed hoverlay hentries hp hlinks
    rw [hentry, if_pos ?_]
    have hmem := mem_of_lastNamed? hp
    have hrelative := validateAllowedPath_relative (validateAllowedPaths_mem hvalid hmem)
    have hplace : IntoTree (purePath p).names := hinto.paths hover p (hall ▸ hmem)
    obtain ⟨e, he⟩ := Option.ne_none_iff_exists'.mp hthere
    have hstill : StandsAt m₁ source.cacheDir.sys D := by
      refine (hg.stands.mono htidy.outside).mono ⟨hsame₁.workdir, fun q hq => hsame₁.same q ?_⟩
      rintro place rfl hpre
      exact hq (below_entry hpre)
    have hplain : e.isLink = false := isLink_of_ne fun target heq => ht _ target (heq ▸ he)
    refine exists_joinText hstill hrelative hplace.inTree.1 ?_ hplain
    rw [hsame₁.same _ (off_overlay hplace.overlay),
      htidy.tracked _ hplace.inTree hplace.overlay, he]

/-- A refresh that comes after others may begin. -/
theorem Preceded.begins {history : List RefreshCall} {call : RefreshCall}
    (hu : Unused m₀ dir D) (hsliced : ∀ name ∈ dir.names, Sliced name)
    (hword : isDashed dir.text = false)
    (hcalls : Preceded g.toGitProgram dir url (history ++ [call]))
    (hrefreshes : Refreshes g.toGitProgram m₀ history m) :
    Begins g m₀ dir D url (leftNames history) call m := by
  have hearlier : Preceded g.toGitProgram dir url history :=
    ⟨fun call' hcall' => hcalls.plain call' (List.mem_append_left _ hcall'),
      fun call' hcall' => hcalls.first call' (by
        rw [List.head?_append, Option.mem_def.mp hcall']
        rfl)⟩
  refine (refreshes_tidy hu hsliced hword hearlier hrefreshes).imp_left ?_
  rintro ⟨rfl, rfl⟩
  exact ⟨rfl, hcalls.first call rfl⟩

/-- **A refresh that returns leaves its source fresh**, over the tree of the commit that the
recorded url has for the ref. -/
theorem refresh_freshCache {call : RefreshCall} {result : RefreshResult} {s : Refreshing C}
    (hu : Unused m₀ dir D) (hsliced : ∀ name ∈ dir.names, Sliced name)
    (hword : isDashed dir.text = false) (hcall : call.Plain g.toGitProgram dir)
    (h : Begins g m₀ dir D url names call m) (hnames : Undisturbed call.inForce names)
    (hinto : OverlaysTree call.inForce) (hrun : call.run g.toGitProgram m = (.ok result, s))
    (ht : Linkless (g.tree result.ref call.inForce.allowedSkillPaths)) :
    call.remotes url call.inForce.ref = some result.ref ∧
      FreshCache call.inForce D (g.tree result.ref call.inForce.allowedSkillPaths) s.machine := by
  obtain ⟨stages⟩ := refresh_eq_ok hrun
  obtain ⟨hcommit, r, -, hsparse, hchecked, htidy⟩ :=
    checkedOut_tidy hu hsliced hword hcall h stages
  refine ⟨hcommit, ?_⟩
  have hground := hu.ground hsliced
  have hdir : call.inForce.cacheDir = dir := hcall.cacheDir
  have htree : g.tracked r = g.tree result.ref call.inForce.allowedSkillPaths :=
    tracked_of_checkedOut hchecked hsparse
  rw [← htree] at ht ⊢
  rcases buildLocal_eq_ok stages.build with
    ⟨hover, paths, s₁, s₂, hpaths, hmkdir, hlinks, hmachine⟩ | ⟨hflat, hsame⟩
  · have hafter := buildLocal_tidy hground hdir stages.paths htidy stages.build
    rw [hmachine] at hafter ⊢
    refine freshCache_overlay htidy hground hdir hover hpaths (stages.paths paths hpaths) hinto ht
      hmkdir hlinks hafter ?_
    rintro name (hname | hname)
    · exact hnames.nested hover hpaths name hname
    · have hlinked : linkedNames call.inForce = paths.map baseName :=
        linkedNames_eq hover hpaths
      rw [← hlinked]
      exact hname
  · refine freshCache_flat (htidy.sameDisk hsame) hground hdir hflat (fun p hp => ?_)
      (hnames.flat hflat)
    cases hpaths : call.inForce.allowedSkillPaths with
    | none =>
      rw [hpaths] at hp
      exact absurd hp List.not_mem_nil
    | some paths =>
      rw [hpaths] at hp
      exact ⟨_, validateAllowedPaths_mem (stages.paths paths hpaths) hp⟩

end Refresh

/-! ## From the commit to the workspace -/

section Provenance

variable [Inhabited C]

/-- A call that returns has provisioned the skills it was to write. -/
theorem provision_written {P : SkillProvisioner C} {ws : ResolvedWorkspace} {user : User}
    {R : Location} {m m' : Machine C} {result : ProvisionResult}
    (hroot : Leads (makedirs P.depths.makedirs (P.destRoot ws) m).2 (P.destRoot ws) R)
    (hlinks : NoLinks (makedirs P.depths.makedirs (P.destRoot ws) m).2 R)
    (hsource : P.source.ApartFrom R (makedirs P.depths.makedirs (P.destRoot ws) m).2)
    (hok : P.provision ws user m = (.ok result, m')) :
    result.provisioned = P.written ws user (makedirs P.depths.makedirs (P.destRoot ws) m).2 := by
  rw [provision_eq] at hok
  obtain ⟨_, m₀, hmade, hok⟩ := Act.bind_eq_ok.mp hok
  rw [Act.mapError_eq_ok.mp hmade] at hroot hlinks hsource ⊢
  obtain ⟨_, m₁, copied, _, _, _, hread, hcopy, -, rfl, -⟩ :=
    provisionOpened_stages hroot hlinks hsource hok
  have hsame : SameDisk m₀ m₁ := readManifest_same.of_eq ⟨rfl, rfl⟩ hread
  have hwritten : copied.provisioned = P.written ws user m₀ :=
    provisionSkills_written hroot hlinks hsource hsame hcopy
  exact hwritten

/-- **The skills of a workspace come from the commit.** A refresh that returns, after any others of
the cache directory that do not get in its way, has the commit that the repository has for the ref
in force. A call of `provision` from the refreshed source, which finds the cache directory as it was
left, lays over the workspace only skills of this commit, each from its place, and, where the way to
the cache directory follows few links, all of them that it may. -/
theorem skills_from_commit (g : Git C) {m₀ m : Machine C} {cacheDir url : String} {D R : Location}
    (hu : Unused m₀ (purePath cacheDir) D) (hword : isDashed (purePath cacheDir).text = false)
    {history : List RefreshCall} {call : RefreshCall}
    (hcalls : Preceded g.toGitProgram (purePath cacheDir) url (history ++ [call]))
    (hrefreshes : Refreshes g.toGitProgram m₀ history m)
    (hnames : Undisturbed call.source (leftNames history)) (hinto : OverlaysTree call.source)
    {result : RefreshResult} {s : Refreshing C}
    (hrun : call.run g.toGitProgram m = (.ok result, s))
    (hlinkless : Linkless (g.tree result.ref call.source.allowedSkillPaths))
    {c : ProvisionCall C} (hsource : c.provisioner.source = s.source.reader)
    (hstands : StandsAt c.opened (purePath cacheDir).sys D)
    (hcache : ∀ q, D <+: q → c.opened.disk.get? q = s.machine.disk.get? q)
    (hroot : Leads c.opened c.dest R) (hlinks : NoLinks c.opened R)
    (hapart : c.provisioner.source.ApartFrom R c.opened)
    {provisioned : ProvisionResult} (hok : c.outcome.1 = .ok provisioned) :
    call.remotes url call.inForce.ref = some result.ref ∧
      (∀ name ∈ provisioned.provisioned, ∃ place, placeOf call.source name = some place ∧
        IntoTree place ∧ HasSkill (g.tree result.ref call.source.allowedSkillPaths) place ∧
        LaidOver name
          (fun rel => g.tree result.ref call.source.allowedSkillPaths (place ++ rel))
          (c.opened.disk.treeAt (R ++ [name])) (c.outcome.2.disk.treeAt (R ++ [name]))) ∧
      ((overlaid call.source = true →
          walk c.opened.disk true spareLinks [] (purePath cacheDir).names = .found D) →
        ∀ name ∈ c.workspace.allowedSkills, isPlainName name = true →
          c.provisioner.identity.canUseSkill c.user c.workspace.workspaceId name = true →
          ∀ place, placeOf call.source name = some place → IntoTree place →
            HasSkill (g.tree result.ref call.source.allowedSkillPaths) place →
            name ∈ provisioned.provisioned) := by
  have hplain : call.Plain g.toGitProgram (purePath cacheDir) :=
    hcalls.plain call (List.mem_append_right _ (List.mem_singleton_self _))
  have hdir : call.inForce.cacheDir = purePath cacheDir := hplain.cacheDir
  have hinto' : OverlaysTree call.inForce := ⟨hinto.absolute, hinto.paths⟩
  obtain ⟨hcommit, hleft⟩ := refresh_freshCache hu (purePath_sliced cacheDir) hword hplain
    (hcalls.begins hu (purePath_sliced cacheDir) hword hrefreshes) hnames hinto' hrun hlinkless
  have hfresh : FreshCache call.inForce D (g.tree result.ref call.source.allowedSkillPaths)
      c.opened := hleft.mono (hdir ▸ hstands) hcache
  have hreader : c.provisioner.source = (bound call.inForce).reader := by
    rw [hsource, refresh_source hrun]
    rfl
  have hreturned : c.provisioner.provision c.workspace c.user c.machine =
      (.ok provisioned, c.outcome.2) := Prod.ext hok rfl
  have hwritten : provisioned.provisioned =
      c.provisioner.written c.workspace c.user c.opened :=
    provision_written hroot hlinks hapart hreturned
  have hhas : ∀ name, c.provisioner.source.hasSkill c.opened name = true ↔
      isPlainName name = true ∧ isSkill c.opened (skillPath call.inForce name) = true := by
    intro name
    rw [hreader]
    exact bound_hasSkill
  refine ⟨hcommit, fun name hname => ?_,
    fun hspare name hallowed hplain hcan place hplace hinto hskill => ?_⟩
  · rw [hwritten] at hname
    obtain ⟨-, heffective⟩ := List.mem_filter.mp hname
    simp only [SkillProvisioner.effective, Bool.and_eq_true] at heffective
    obtain ⟨hplain, hskill⟩ := (hhas name).mp heffective.2
    obtain ⟨place, hplace, hinto, hthere, hsees⟩ := hfresh.serves hinto' hlinkless hplain hskill
    refine ⟨place, hplace, hinto, hthere, ?_⟩
    obtain ⟨hoff, hlays⟩ := provision_lays hroot hlinks hapart hreturned
    have hlaid := hlays name (by rwa [hwritten])
    have hpath : c.provisioner.source.skillDir c.opened name =
        .ok (skillPath call.inForce name) := by
      rw [hreader]
      exact bound_skillDir.mpr ⟨bound_hasSkill.mpr ⟨hplain, hskill⟩, rfl⟩
    rw [hapart.tree_eq hoff name, SkillSource.tree_of_ok hpath, hsees] at hlaid
    exact hlaid
  · rw [hwritten]
    refine List.mem_filter.mpr ⟨hallowed, ?_⟩
    simp only [SkillProvisioner.effective, Bool.and_eq_true]
    refine ⟨⟨hplain, hcan⟩, (hhas name).mpr ⟨hplain, ?_⟩⟩
    exact hfresh.serves_all hinto' hlinkless (hdir ▸ hspare) hplain hplace hinto hskill

end Provenance

/-! ## A commit with one skill in another -/

/-- Manifests, whose names stand in the field of the sparse set. -/
def recordFile : JsonFile GitFile where
  dump
    | .obj [_, (_, .arr names)] => some ⟨"", some (names.filterMap fun
        | .str name => some name
        | _ => none), none, none⟩
    | _ => none
  load
    | some ⟨_, some names, _, _⟩ => .ok (manifestOf names)
    | _ => .error ⟨.jsonDecodeError, "Expecting value: line 1 column 1 (char 0)"⟩
  load_dump managed _ := by
    have hnames : (managed.map Json.str).filterMap (fun
        | .str name => some name
        | _ => none) = managed := by
      rw [List.filterMap_map]
      exact List.filterMap_some
    simp only [manifestOf, hnames]

/-- A machine with an empty workspace. -/
def workspaceMachine : Machine GitFile where
  disk := [["ws"], ["ws", ".agents"], skillsRoot].foldl (fun d p => d.put p .dir) Disk.empty

/-- A refresh of `a` on it. -/
def refreshedA : Except RefreshError RefreshResult × Refreshing GitFile :=
  runOf (refreshOf "a" none) workspaceMachine

/-- The disk that the refresh leaves, spelled out. -/
def leftDisk : Disk GitFile :=
  ([(["ws"], .dir), (["ws", ".agents"], .dir), (skillsRoot, .dir), (["cache"], .dir),
    (gitAt ["cache"], .dir), (configAt ["cache"], .file (some ⟨"a", none, some "a", some "a"⟩)),
    (["cache", "d"], .dir), (["cache", "d", "SKILL.md"], .file none), (["cache", "d", "b"], .dir),
    (["cache", "d", "b", "SKILL.md"], .file none)] : List (Location × Entry GitFile)).foldl
      (fun d e => d.put e.1 e.2) Disk.empty

/-- A call on it that is to write the skill and the one in it. -/
def callAfterRefresh : ProvisionCall GitFile where
  provisioner :=
    { source := localDirSkillSource "/cache"
      identity := ⟨fun _ _ => true, fun _ _ _ => true, fun _ _ _ => true⟩
      json := recordFile
      depths := { makedirs := 900, copytree := 450, rmtree := 900 } }
  workspace := { skilledWorkspace with allowedSkills := ["d", "b"] }
  user := skilledUser
  machine := { disk := leftDisk }

theorem workspaceMachine_unused : Unused workspaceMachine (purePath "/cache") ["cache"] where
  leads := ⟨Disk.isDirAt_iff.mp (by decide +kernel), by decide +kernel⟩
  empty := by decide +kernel
  parent := ⟨[], by decide +kernel, by decide +kernel⟩

theorem refreshedA_disk (q : Location) :
    refreshedA.2.machine.disk.get? q = leftDisk.get? q := by
  have hitems : refreshedA.2.machine.disk.entries.items = leftDisk.entries.items := by
    decide +kernel
  by_cases hq : q = []
  · rw [hq]
    rfl
  · rw [Disk.get?_of_ne_nil _ hq, Disk.get?_of_ne_nil _ hq, Dict.get?, Dict.get?, hitems]

theorem leftDisk_noLinks (p : Location) (target : String) :
    leftDisk.get? p ≠ some (.link target) := by
  intro hlink
  by_cases hp : p = []
  · subst hp
    cases hlink
  have hplain : ∀ item ∈ leftDisk.entries.items, item.2.isLink = false := by decide +kernel
  rw [Disk.get?_of_ne_nil _ hp, Dict.get?_eq_some] at hlink
  exact Bool.noConfusion (hplain _ hlink)

theorem callAfterRefresh_leads :
    Leads callAfterRefresh.machine callAfterRefresh.dest skillsRoot := by
  have hdest : callAfterRefresh.dest = ⟨true, skillsRoot⟩ := by with_unfolding_all rfl
  have hdir : callAfterRefresh.machine.disk.get? skillsRoot = some .dir :=
    Disk.isDirAt_iff.mp (by decide +kernel)
  rw [hdest]
  exact ⟨hdir, lookup_located hdir rfl⟩

/-- The skills directory is there, so making it changes nothing. -/
theorem callAfterRefresh_opened : SameDisk callAfterRefresh.machine callAfterRefresh.opened :=
  makedirs_leads callAfterRefresh_leads _

theorem callAfterRefresh_noLinks (p : Location) (target : String) :
    callAfterRefresh.opened.disk.get? p ≠ some (.link target) := by
  rw [callAfterRefresh_opened.1]
  exact leftDisk_noLinks p target

theorem callAfterRefresh_apart :
    callAfterRefresh.provisioner.source.ApartFrom skillsRoot callAfterRefresh.opened := by
  have hpath : PosixPath.ofString "/cache" = ⟨true, ["cache"]⟩ := by with_unfolding_all rfl
  refine localDirSkillSource_apart fun name hname => ?_
  rw [hpath]
  refine apart_of_noLinks (by decide) callAfterRefresh_noLinks (fun q hq hbelow => ?_)
    (isEntryName_of_isPlainName hname)
  obtain ⟨q, rfl⟩ := hbelow
  rcases hq with hq | ⟨_, hq⟩
  · exact absurd hq.length_le (by simp [skillsRoot])
  · exact absurd (List.cons.inj hq).1 (by decide)

theorem callAfterRefresh_cache :
    StandsAt callAfterRefresh.opened (purePath "/cache").sys ["cache"] := by
  have hpath : (purePath "/cache").sys = ⟨true, ["cache"]⟩ := by with_unfolding_all rfl
  rw [hpath]
  refine standsAt_located ?_
  rw [callAfterRefresh_opened.1]
  exact Disk.isDirAt_iff.mp (by decide +kernel)

/-- A skill of the commit is provisioned, and the one in it is not. -/
theorem skills_from_commit_nested :
    callAfterRefresh.outcome.1 = .ok { provisioned := ["d"], missing := ["b"] } ∧
      ∃ place, placeOf (refreshOf "a" none).source "d" = some place ∧
        HasSkill skillInSkill.tree place ∧
        LaidOver "d" (fun rel => skillInSkill.tree (place ++ rel))
          (callAfterRefresh.opened.disk.treeAt (skillsRoot ++ ["d"]))
          (callAfterRefresh.outcome.2.disk.treeAt (skillsRoot ++ ["d"])) := by
  have hok : callAfterRefresh.outcome.1 = .ok { provisioned := ["d"], missing := ["b"] } :=
    eq_ok_of_toOption (by decide +kernel)
  have hplain : (refreshOf "a" none).Plain (oneTreeProgram plainInterpreter skillInSkill)
      (purePath "/cache") := by
    refine refreshOf_plain (by decide) ?_
    rintro ps ⟨⟩
  have hcalls : Preceded (oneTreeProgram plainInterpreter skillInSkill) (purePath "/cache") "a"
      ([] ++ [refreshOf "a" none]) := by
    refine ⟨fun earlier hearlier => ?_, fun earlier hearlier => ?_⟩
    · rw [List.mem_singleton.mp hearlier]
      exact hplain
    · cases hearlier
      rfl
  have hnone : Undisturbed (refreshOf "a" none).source (leftNames []) := by
    rintro name ⟨call, hcall, -⟩
    cases hcall
  have hinto : OverlaysTree (refreshOf "a" none).source :=
    ⟨fun hover => Bool.noConfusion hover, fun hover => Bool.noConfusion hover⟩
  have hseen : seenOf refreshedA = some ("a", false) := by decide +kernel
  obtain ⟨result, s, hrun, rfl, -, -⟩ := seenOf_eq_some hseen
  have hsource : callAfterRefresh.provisioner.source = refreshedA.2.source.reader := by
    have hbound : refreshedA.2.source = bound (refreshOf "a" none).inForce := refresh_source hrun
    have hroot : (skillRoot (refreshOf "a" none).inForce).text = "/cache" := by decide +kernel
    rw [hbound, bound_reader, hroot]
    rfl
  have hleft : ∀ q, ["cache"] <+: q →
      callAfterRefresh.opened.disk.get? q = refreshedA.2.machine.disk.get? q := by
    intro q _
    rw [callAfterRefresh_opened.1]
    exact (refreshedA_disk q).symm
  have hexpands : Expands ∅ callAfterRefresh.machine callAfterRefresh.opened :=
    .of_disk callAfterRefresh_opened.1 callAfterRefresh_opened.2
  obtain ⟨-, hfrom, -⟩ := skills_from_commit (oneTree plainInterpreter skillInSkill)
    workspaceMachine_unused (by decide +kernel) hcalls .nil hnone hinto hrun
    skillInSkill_noLink hsource callAfterRefresh_cache hleft
    (hexpands.leads callAfterRefresh_leads) (fun p _ => callAfterRefresh_noLinks p)
    callAfterRefresh_apart hok
  obtain ⟨place, hplace, -, hskill, hlaid⟩ := hfrom "d" (by decide)
  exact ⟨hok, place, hplace, hskill, hlaid⟩

end ClawEngine.Skills
