import ClawEngine.Laws.CheckoutContainment
import ClawEngine.Laws.RefreshHistory
import ClawEngine.Posix.Budget
import ClawEngine.Posix.Copies
import Mathlib.Data.List.Infix

/-!
# What a refresh materializes

The names a refresh returns are those of a scan of the cache directory, or those of the allowed
paths. The source answers for the directories in its root: the cache directory, or the overlay,
which leads from the last segment of a path to the directory of the path.
-/

set_option autoImplicit false

namespace ClawEngine.Skills

open ClawEngine.Core ClawEngine.Posix ClawEngine.Context

variable {C : Type} {host : GitHost C} {source : GitSkillSource} {m m' : Machine C}

/-! ## The root -/

section Root

theorem isSkill_sys (p : PosixPath) (name : String) :
    isSkill m (p.sys.child name) = isSkill m (p.child name) := by
  have hdir : lookup m true (p.sys.child name) = lookup m true (p.child name) :=
    lookup_descend_sys (List.cons_ne_nil name []) true
  have hfile : lookup m true ((p.sys.child name).child "SKILL.md") =
      lookup m true ((p.child name).child "SKILL.md") := by
    have hboth := lookup_descend_sys (m := m) (p := p) (List.cons_ne_nil name ["SKILL.md"]) true
    simpa only [PosixPath.descend, PosixPath.child, List.append_assoc, List.singleton_append]
      using hboth
  rw [isSkill, isSkill, isdir, isdir, isfile, isfile, hdir, hfile]

theorem skillRoot_sliced (hdir : ∀ name ∈ source.cacheDir.names, Sliced name) :
    ∀ name ∈ (skillRoot source).names, Sliced name := by
  unfold skillRoot
  split
  · intro name hname
    rcases List.mem_append.mp hname with hname | hname
    · exact hdir name hname
    · rw [List.mem_singleton.mp hname]
      exact ⟨by decide, by decide⟩
  · exact hdir

theorem skillPath_eq (hdir : ∀ name ∈ source.cacheDir.names, Sliced name) (name : String) :
    skillPath source name = (skillRoot source).sys.child name := by
  rw [skillPath, ofString_text (skillRoot_sliced hdir)]

/-- The source has the skills of its root. -/
theorem bound_hasSkill_root (hdir : ∀ name ∈ source.cacheDir.names, Sliced name) (name : String) :
    (bound source).reader.hasSkill m name = true ↔
      isPlainName name = true ∧ isSkill m ((skillRoot source).child name) = true := by
  rw [bound_hasSkill, skillPath_eq hdir, isSkill_sys]

end Root

/-! ## A scan -/

/-- The names of a scan: those of the directories that do not start with a dot, each once. The
source has the skills among them, and no other under such a name. -/
structure ScanServed (source : GitSkillSource) (names : List String) (m : Machine C) : Prop where
  nodup : names.Nodup
  mem_iff : ∀ name, name ∈ names ↔ isEntryName name = true ∧
    isdir m (source.cacheDir.child name) = true ∧ name.toList.head? ≠ some '.'
  hasSkill_iff : ∀ name, name.toList.head? ≠ some '.' →
    (source.reader.hasSkill m name = true ↔
      isPlainName name = true ∧ name ∈ names ∧ isSkill m (source.cacheDir.child name) = true)
  skillDir : ∀ name, source.reader.hasSkill m name = true →
    source.reader.skillDir m name = .ok (source.cacheDir.sys.child name)

/-- A name under which something is found is one of the directory. -/
theorem GoesOn.mem_children {dest : PosixPath} {R q : Location} {name : String}
    (h : GoesOn m dest R) (hname : isEntryName name = true)
    (hfound : lookup m true (dest.child name) = .found q) : name ∈ m.disk.children R := by
  refine Disk.mem_children.mpr (Option.isSome_iff_ne_none.mpr fun hnone => ?_)
  refine h.not_found (List.cons_ne_nil name []) (fun n hn => ?_) (fun r hr target => ?_) hnone q hfound
  · rwa [List.mem_singleton.mp hn]
  · rcases List.prefix_cons_iff.mp hr with rfl | ⟨r', rfl, hr'⟩
    · rw [List.append_nil, h.dir]
      intro hlink
      cases hlink
    · rw [List.prefix_nil.mp hr', hnone]
      intro hlink
      cases hlink

/-- What the scan returns. -/
theorem dirNames_eq_ok {s s' : Refreshing C} {names : List String}
    (h : dirNames source s = (.ok names, s')) :
    s'.machine = s.machine ∧ ∃ D, Leads s.machine source.cacheDir.sys D ∧
      names = ((s.machine.disk.children D).insertionSort (· ≤ ·)).filter fun name =>
        isdir s.machine (source.cacheDir.child name) && name.toList.head? ≠ some '.' := by
  obtain ⟨entries, s₁, hscan, hask⟩ := Act.bind_eq_ok.mp h
  obtain ⟨hiter, hs₁⟩ := onMachine_eq_ok hscan
  obtain ⟨listed, m₁, hscandir, hpure⟩ := Act.bind_eq_ok.mp (Act.mapError_eq_ok.mp hiter)
  cases hpure
  obtain ⟨hlisted, hm₁⟩ := Act.readE_eq_ok.mp hscandir
  cases hask
  refine ⟨hm₁.symm, ?_⟩
  split at hlisted
  next D hfound =>
    split at hlisted
    next hdir =>
      cases hlisted
      refine ⟨D, ⟨Disk.isDirAt_iff.mp hdir, hfound⟩, ?_⟩
      rw [listing_map_fst]
      dsimp only
      rw [← hm₁]
    · cases hlisted
  · cases hlisted
  · cases hlisted

theorem scan_served (hdir : ∀ name ∈ source.cacheDir.names, Sliced name)
    (hnone : source.allowedSkillPaths = none) {s s' : Refreshing C} {names : List String}
    (h : buildLocal host source s = (.ok names, s')) :
    ScanServed (bound source) names s'.machine := by
  have hroot : skillRoot source = source.cacheDir := by
    rw [skillRoot, overlaid, hnone]
    exact if_neg Bool.false_ne_true
  unfold buildLocal at h
  rw [hnone] at h
  obtain ⟨names', s₁, hscan, h⟩ := Act.bind_eq_ok.mp h
  cases h
  obtain ⟨hmachine, D, hleads, hnames⟩ := dirNames_eq_ok hscan
  show ScanServed (bound source) names s₁.machine
  rw [hmachine]
  have hgoes : GoesOn s.machine source.cacheDir D := hleads.goesOn.of_sys
  have hmem : ∀ name, name ∈ names ↔ isEntryName name = true ∧
      isdir s.machine (source.cacheDir.child name) = true ∧ name.toList.head? ≠ some '.' := by
    intro name
    rw [hnames, List.mem_filter, List.mem_insertionSort, Bool.and_eq_true, decide_eq_true_eq]
    constructor
    · rintro ⟨hchild, hkept⟩
      exact ⟨Disk.isEntryName_of_mem_children hchild, hkept⟩
    · rintro ⟨hname, hisdir, hdot⟩
      obtain ⟨q, hfound, -⟩ := isdir_iff.mp hisdir
      exact ⟨GoesOn.mem_children hgoes hname hfound, hisdir, hdot⟩
  refine ⟨?_, hmem, fun name hdot => ?_, fun name hskill => ?_⟩
  · rw [hnames]
    exact ((List.perm_insertionSort _ _).nodup_iff.mpr (Disk.children_nodup _ _)).filter _
  · rw [bound_hasSkill_root hdir, hroot]
    constructor
    · rintro ⟨hplain, hskill⟩
      exact ⟨hplain, (hmem name).mpr ⟨isEntryName_of_isPlainName hplain,
        (Bool.and_eq_true_iff.mp hskill).1, hdot⟩, hskill⟩
    · rintro ⟨hplain, -, hskill⟩
      exact ⟨hplain, hskill⟩
  · refine bound_skillDir.mpr ⟨hskill, ?_⟩
    rw [skillPath_eq hdir, hroot]
    rfl

/-! ## Allowed paths -/

section Paths

variable {py : Interpreter} {p : String} {paths : List String}

theorem slash_of_hasText (h : hasText "/" p = false) : '/' ∉ p.toList := by
  intro hmem
  obtain ⟨xs, ys, hsplit⟩ := List.append_of_mem hmem
  have hany : hasText "/" p = true := List.any_eq_true.mpr ⟨'/' :: ys,
    (List.mem_tails _ _).mpr ⟨xs, hsplit.symm⟩, List.isPrefixOf_iff_prefix.mpr ⟨ys, rfl⟩⟩
  rw [h] at hany
  cases hany

/-- A path of one segment is its last segment. -/
theorem baseName_of_no_slash (h : '/' ∉ p.toList) : baseName p = p := by
  rw [baseName, splitNames_segment h]
  exact String.ofList_toList

theorem validateAllowedPath_relative (h : validateAllowedPath py p = .ok ()) :
    p.toList.head? ≠ some '/' := by
  intro hslash
  unfold validateAllowedPath at h
  split at h
  · exact rejectPath_ne_ok h
  split at h
  · exact rejectPath_ne_ok h
  rw [if_pos (.inl hslash)] at h
  exact rejectPath_ne_ok h

theorem validateAllowedPaths_mem (h : validateAllowedPaths py paths = .ok ()) (hp : p ∈ paths) :
    validateAllowedPath py p = .ok () := by
  induction paths with
  | nil => exact absurd hp List.not_mem_nil
  | cons p' paths ih =>
    cases hp' : validateAllowedPath py p' with
    | error e =>
      rw [validateAllowedPaths, hp'] at h
      cases h
    | ok u =>
      rw [validateAllowedPaths, hp'] at h
      rcases List.mem_cons.mp hp with rfl | hp
      · exact hp'
      · exact ih h hp

/-- A relative path goes on from a directory. -/
theorem joinText_relative (dir : PosixPath) (h : p.toList.head? ≠ some '/') :
    dir.joinText p = dir.descend (purePath p).names := by
  have hrelative : (purePath p).absolute = false := decide_eq_false h
  rw [PosixPath.joinText, PosixPath.join, hrelative, if_neg Bool.false_ne_true]
  rfl

theorem joinText_of_plain (dir : PosixPath) (hplain : isPlainName p = true) :
    dir.joinText p = dir.child p := by
  have hname := isEntryName_of_isPlainName hplain
  have hsliced : Sliced p := by
    simp only [isEntryName, Bool.and_eq_true, decide_eq_true_eq, Bool.not_eq_true',
      List.contains_eq_mem, decide_eq_false_iff_not] at hname
    exact ⟨hname.1.1.1, hname.2⟩
  have hhead : p.toList.head? ≠ some '/' := fun hhead => hsliced.2 (List.mem_of_head? hhead)
  have hnames : (purePath p).names = [p] := by
    have hfilter : (namesOf p.toList).filter (· ≠ ".") = [p] := by
      rw [namesOf_sliced hsliced, List.filter_singleton,
        decide_eq_true (isEntryName_ne_dot (isEntryName_of_isPlainName hplain)), cond_true]
    exact hfilter
  rw [joinText_relative dir hhead, hnames]
  rfl

/-- What the last stage does for allowed paths. -/
theorem buildLocal_paths {s s' : Refreshing C} {names : List String}
    (hpaths : source.allowedSkillPaths = some paths)
    (h : buildLocal host source s = (.ok names, s')) :
    names = paths.map baseName ∧
      (overlaid source = false ∧ s'.machine = s.machine ∨
        overlaid source = true ∧ ∃ s₁ s₂,
          mkdirHere (flatDirOf source) s.machine = (.ok (), s₁.machine) ∧
          linkAll host source.cacheDir (flatDirOf source) paths s₁ = (.ok (), s₂) ∧
          s'.machine = s₂.machine) := by
  unfold buildLocal at h
  unfold overlaid
  rw [hpaths] at h ⊢
  dsimp only at h ⊢
  split at h
  next hnested =>
    obtain ⟨_, s₁, hmkdir, h⟩ := Act.bind_eq_ok.mp h
    obtain ⟨_, s₂, hlinks, h⟩ := Act.bind_eq_ok.mp h
    cases h
    exact ⟨rfl, .inr ⟨hnested, s₁, s₂, (onMachine_eq_ok hmkdir).1, hlinks, rfl⟩⟩
  next hflat =>
    cases h
    exact ⟨rfl, .inl ⟨Bool.eq_false_of_not_eq_true hflat, rfl⟩⟩

end Paths

/-- The source answers, under the last segment of a path, with the directory of the path. -/
def AnswersWith (source : GitSkillSource) (m : Machine C) (p : String) : Prop :=
  ∃ dir q, source.reader.skillDir m (baseName p) = .ok dir ∧ lookup m true dir = .found q ∧
    lookup m true (source.cacheDir.joinText p) = .found q

/-- Without an overlay, the source has the paths that are skills, each at its own directory. -/
theorem flat_served (hdir : ∀ name ∈ source.cacheDir.names, Sliced name) {paths : List String}
    (hpaths : source.allowedSkillPaths = some paths) (hflat : overlaid source = false)
    (hvalid : validateAllowedPaths host.py paths = .ok ()) {p : String} (hp : p ∈ paths) :
    ((bound source).reader.hasSkill m (baseName p) = true ↔
        isSkill m (source.cacheDir.joinText p) = true) ∧
      ((bound source).reader.hasSkill m (baseName p) = true → AnswersWith (bound source) m p) := by
  have hslash : '/' ∉ p.toList := by
    apply slash_of_hasText
    rw [overlaid, hpaths] at hflat
    exact Bool.eq_false_of_not_eq_true fun h =>
      Bool.false_ne_true (hflat.symm.trans (List.any_eq_true.mpr ⟨p, hp, h⟩))
  have hplain : isPlainName p = true := by
    have hname := validateAllowedPath_name (validateAllowedPaths_mem hvalid hp)
    rwa [baseName_of_no_slash hslash] at hname
  have hroot : skillRoot source = source.cacheDir := by
    rw [skillRoot, hflat]
    exact if_neg Bool.false_ne_true
  have hiff := bound_hasSkill_root (m := m) hdir p
  rw [hroot] at hiff
  rw [AnswersWith, baseName_of_no_slash hslash]
  show _ ∧ (_ → ∃ dir q, _ ∧ _ ∧ lookup m true (source.cacheDir.joinText p) = .found q)
  rw [joinText_of_plain source.cacheDir hplain]
  refine ⟨hiff.trans (and_iff_right hplain), fun hskill => ?_⟩
  have hisdir := (Bool.and_eq_true_iff.mp (hiff.mp hskill).2).1
  obtain ⟨q, hfound, -⟩ := isdir_iff.mp hisdir
  refine ⟨skillPath source p, q, bound_skillDir.mpr ⟨hskill, rfl⟩, ?_, hfound⟩
  rw [skillPath_eq hdir, hroot]
  exact (lookup_descend_sys (List.cons_ne_nil p []) true).trans hfound

/-! ## The overlay -/

/-- An overlay can be built at `D`: the cache directory is absolute and leads to `D` by a path that
does not pass through `D` itself, and under the name of the overlay there is nothing but a directory
of links. -/
structure OverlayReady (m : Machine C) (dir : PosixPath) (D : Location) : Prop where
  absolute : dir.absolute = true
  stands : StandsAt m dir D
  links : ∀ rest e, m.disk.get? (overlayAt D ++ rest) = some e →
    (rest = [] ∧ e = .dir) ∨ ∃ name, rest = [name] ∧ e.isLink = true

/-- How many links the way to a `SKILL.md` may take. The way through the overlay follows one more,
and those of the cache directory twice. -/
def spareLinks : Nat := 19

/-- Whatever is in the overlay, the path is a directory with a `SKILL.md`, found by few links. -/
def HeldApart (m : Machine C) (dir : PosixPath) (D : Location) (p : String) : Prop :=
  ∀ m', SameOff {overlayAt D} m m' → ∃ q f content,
    walk m'.disk true spareLinks [] (dir.joinText p).names = .found q ∧
    m'.disk.get? q = some .dir ∧
    walk m'.disk true spareLinks [] ((dir.joinText p).names ++ ["SKILL.md"]) = .found f ∧
    m'.disk.get? f = some (.file content)

section Overlay

variable {dir : PosixPath} {D : Location} {p : String}

theorem sys_of_absolute (habs : dir.absolute = true) : dir.sys = dir := by
  rw [PosixPath.sys, if_neg]
  intro hand
  rw [habs] at hand
  cases hand.1

/-- A directory of the tree at its own place, outside the overlay. -/
theorem heldApart_of_tree {content : C} (hdir : dir = ⟨true, D⟩) (hp : p.toList.head? ≠ some '/')
    (hover : (purePath p).names.head? ≠ some overlayName)
    (hheld : m.disk.get? (D ++ (purePath p).names) = some .dir)
    (hskill : m.disk.get? (D ++ (purePath p).names ++ ["SKILL.md"]) = some (.file content)) :
    HeldApart m dir D p := by
  intro m' hsame
  have hnames : (dir.joinText p).names = D ++ (purePath p).names := by
    rw [joinText_relative dir hp, hdir]
    rfl
  have hoff : ∀ rest, D ++ rest = D ++ (purePath p).names ++ ["SKILL.md"] ∨
      D ++ rest = D ++ (purePath p).names → rest.head? ≠ some overlayName := by
    rintro rest (hrest | hrest)
    · rw [List.append_assoc] at hrest
      rw [List.append_cancel_left hrest]
      cases hnil : (purePath p).names with
      | nil => exact by decide
      | cons name names =>
        rw [hnil] at hover
        exact hover
    · rw [List.append_cancel_left hrest]
      exact hover
  have hheld' : m'.disk.get? (D ++ (purePath p).names) = some .dir :=
    (hsame.same _ (off_overlay (hoff _ (.inr rfl)))).trans hheld
  have hskill' : m'.disk.get? (D ++ (purePath p).names ++ ["SKILL.md"]) = some (.file content) := by
    rw [List.append_assoc] at hskill hoff ⊢
    exact (hsame.same _ (off_overlay (hoff _ (.inl rfl)))).trans hskill
  rw [hnames]
  have hfound : walk m'.disk true spareLinks [] (D ++ (purePath p).names) =
      .found (D ++ (purePath p).names) := walk_located hheld' rfl
  have hfile : walk m'.disk true spareLinks [] (D ++ (purePath p).names ++ ["SKILL.md"]) =
      .found (D ++ (purePath p).names ++ ["SKILL.md"]) := walk_located hskill' rfl
  exact ⟨_, _, content, hfound, hheld', hfile, hskill'⟩

/-- Where nothing has the name of the overlay, one can be built. -/
theorem overlayReady_of_missing (hD : m.disk.get? D = some .dir)
    (hover : m.disk.get? (overlayAt D) = none) : OverlayReady m ⟨true, D⟩ D where
  absolute := rfl
  stands := ⟨hD, fun _ hsame => lookup_located ((hsame.2 D fun hne => hne.2 rfl).trans hD) rfl⟩
  links rest e he := by
    by_cases hnil : rest = []
    · rw [hnil, List.append_nil, hover] at he
      cases he
    · rw [Disk.ancestor_dir hnil he] at hover
      cases hover

/-- What the loop over the paths leaves under the last segment of a path that comes last with it. -/
theorem linkAll_last {before after : List String} {s s' : Refreshing C}
    (hm : HasOverlay dir D s.machine)
    (hnames : ∀ p' ∈ before ++ p :: after, isEntryName (baseName p') = true)
    (hlast : baseName p ∉ after.map baseName)
    (h : linkAll host dir (dir.child overlayName) (before ++ p :: after) s = (.ok (), s')) :
    ∃ m₁, SameOff {overlayAt D} s.machine m₁ ∧
      s'.machine.disk.get? (overlayAt D ++ [baseName p]) =
        if exists? m₁ (dir.joinText p) = true then some (.link (dir.joinText p).text) else none := by
  have hentry : ∀ names : List String, Covers {overlayAt D} (entriesAt D names) := by
    rintro names place ⟨name, -, rfl⟩
    exact ⟨_, rfl, List.prefix_append _ _⟩
  induction before generalizing s with
  | nil =>
    obtain ⟨_, s₁, hlink, hrest⟩ := Act.bind_eq_ok.mp h
    have hone := linkAllowed_eq_ok hm (hnames p List.mem_cons_self) hlink
    obtain ⟨m₁, hsame, hentries⟩ := hone.link
    refine ⟨m₁, hsame.mono ?_, ?_⟩
    · rintro place rfl
      exact ⟨_, rfl, List.prefix_append _ _⟩
    · have hkept := (linkAll_eq_ok (hone.hasOverlay hm)
        (fun p' hp' => hnames p' (List.mem_cons_of_mem p hp')) hrest).2
      rw [hkept.same, hentries _ List.prefix_rfl]
      · simp only [true_and]
      · rintro place ⟨name, hname, rfl⟩ hpre
        have hsuffix := (List.prefix_append_right_inj _).mp hpre
        rcases List.prefix_cons_iff.mp hsuffix with hnil | ⟨rest, hcons, -⟩
        · cases hnil
        · rw [(List.cons.inj hcons).1] at hname
          exact hlast hname
  | cons p' before ih =>
    obtain ⟨_, s₁, hlink, hrest⟩ := Act.bind_eq_ok.mp h
    have hone := linkAllowed_eq_ok hm (hnames p' List.mem_cons_self) hlink
    obtain ⟨m₁, hsame, hlinked⟩ := ih (hone.hasOverlay hm)
      (fun p'' hp'' => hnames p'' (List.mem_cons_of_mem p' hp'')) hrest
    refine ⟨m₁, .trans (hone.sameOff.mono ?_) hsame, hlinked⟩
    rintro place rfl
    exact ⟨_, rfl, List.prefix_append _ _⟩

/-- The way through a link of the overlay: that of the path it names, with what is left of the
budget. -/
theorem lookup_overlay {k : Nat} {name : String} (names : List String)
    (habs : dir.absolute = true) (hdir : ∀ n ∈ dir.names, Sliced n)
    (hrelative : p.toList.head? ≠ some '/')
    (hfollows : Follows m.disk [] dir.names D k) (hk : k ≤ maxLinks)
    (hD : m.disk.get? D = some .dir) (hover : m.disk.get? (overlayAt D) = some .dir)
    (hname : isEntryName name = true)
    (hlink : m.disk.get? (overlayAt D ++ [name]) = some (.link (dir.joinText p).text)) :
    lookup m true (((dir.child overlayName).child name).descend names) =
      atLink m.disk true (maxLinks - k) [] ((dir.joinText p).names ++ names) := by
  have hjoin : dir.joinText p = ⟨true, dir.names ++ (purePath p).names⟩ := by
    rw [joinText_relative dir hrelative, PosixPath.descend, habs]
  have hsliced : ∀ n ∈ (dir.joinText p).names, Sliced n := by
    rw [hjoin]
    intro n hn
    rcases List.mem_append.mp hn with hn | hn
    · exact hdir n hn
    · exact purePath_sliced p n hn
  have htarget : PosixPath.ofString (dir.joinText p).text = dir.joinText p := by
    rw [ofString_text hsliced]
    exact sys_of_absolute (by rw [hjoin])
  have hpath : (((dir.child overlayName).child name).descend names).names =
      dir.names ++ overlayName :: name :: names := by
    simp only [PosixPath.descend, PosixPath.child, List.append_assoc, List.cons_append,
      List.nil_append]
  have hlink' : m.disk.get? (D ++ [overlayName] ++ [name]) = some (.link (dir.joinText p).text) :=
    hlink
  obtain ⟨b, hb⟩ := Nat.exists_eq_add_of_le hk
  have hwalk := hfollows (overlayName :: name :: names) (.inl hD) b
  rw [lookup, if_pos (show (((dir.child overlayName).child name).descend names).absolute = true from
    habs), hpath, hb, hwalk, walk_dir (isEntryName_ne_dot overlayName_entry)
    (isEntryName_ne_dotdot overlayName_entry) hover,
    walk_link (isEntryName_ne_dot hname) (isEntryName_ne_dotdot hname) hlink', htarget,
    Nat.add_sub_cancel_left, startOf, hjoin, if_pos rfl]

end Overlay

theorem lookup_absolute {p : PosixPath} (habs : p.absolute = true) :
    lookup m true p = walk m.disk true maxLinks [] p.names := if_pos habs

/-- A skill: its directory, and the file in it. -/
theorem isSkill_iff {p : PosixPath} : isSkill m p = true ↔
    (∃ q, lookup m true p = .found q ∧ m.disk.get? q = some .dir) ∧
      ∃ f, lookup m true (p.child "SKILL.md") = .found f ∧ m.disk.isDirAt f = false := by
  rw [isSkill, Bool.and_eq_true, isdir_iff, isfile_iff]

section Served

variable {dir : PosixPath} {D : Location} {p : String}

/-- **Through a link of the overlay** the source has the skill of the path the link names, at the
same directory. -/
theorem overlay_leads (hstands : StandsAt m dir D) (habs : dir.absolute = true)
    (hdir : ∀ n ∈ dir.names, Sliced n) (hrelative : p.toList.head? ≠ some '/')
    (hover : m.disk.get? (overlayAt D) = some .dir) {name : String}
    (hname : isEntryName name = true)
    (hlink : m.disk.get? (overlayAt D ++ [name]) = some (.link (dir.joinText p).text)) :
    (isSkill m ((dir.child overlayName).child name) = true → isSkill m (dir.joinText p) = true ∧
        ∃ q, lookup m true ((dir.child overlayName).child name) = .found q ∧
          lookup m true (dir.joinText p) = .found q) ∧
      ∀ q f content, walk m.disk true spareLinks [] (dir.joinText p).names = .found q →
        m.disk.get? q = some .dir →
        walk m.disk true spareLinks [] ((dir.joinText p).names ++ ["SKILL.md"]) = .found f →
        m.disk.get? f = some (.file content) →
        isSkill m ((dir.child overlayName).child name) = true := by
  have hjoin : (dir.joinText p).absolute = true := by
    rw [joinText_relative dir hrelative]
    exact habs
  have hhere : lookup m true ((dir.child overlayName).child name) =
      lookup m true (((dir.child overlayName).child name).descend []) := by
    rw [PosixPath.descend, List.append_nil]
  have hroot := hstands.leads.found
  rw [lookup_absolute habs] at hroot
  constructor
  · intro hskill
    obtain ⟨k, hk, hfollows⟩ := walk_follows hroot
    have hways := fun names => lookup_overlay names habs hdir hrelative hfollows hk
      hstands.1 hover hname hlink
    have hfound : ∀ names q,
        lookup m true (((dir.child overlayName).child name).descend names) = .found q →
        walk m.disk true maxLinks [] ((dir.joinText p).names ++ names) = .found q := by
      intro names q hq
      rw [hways names] at hq
      exact walk_of_atLink (Nat.sub_le maxLinks k) hq
    obtain ⟨⟨q, hq, hisdir⟩, f, hf, hfile⟩ := isSkill_iff.mp hskill
    have hq' : lookup m true (dir.joinText p) = .found q := by
      have hwalk := hfound [] q (hhere.symm.trans hq)
      rwa [List.append_nil, ← lookup_absolute hjoin] at hwalk
    have hf' : lookup m true ((dir.joinText p).child "SKILL.md") = .found f :=
      (lookup_absolute (p := (dir.joinText p).child "SKILL.md") hjoin).trans
        (hfound ["SKILL.md"] f hf)
    exact ⟨isSkill_iff.mpr ⟨⟨q, hq', hisdir⟩, f, hf', hfile⟩, q, hq, hq'⟩
  · intro q f content hq hisdir hf hfile
    have hsplit : (dir.joinText p).names = dir.names ++ (purePath p).names := by
      rw [joinText_relative dir hrelative]
      rfl
    obtain ⟨D', hD'⟩ := walk_upto (hsplit ▸ hq)
    obtain rfl : D = D' := Lookup.found.inj
      (hroot.symm.trans (walk_more (show spareLinks ≤ maxLinks by decide) hD'))
    obtain ⟨k, hk, hfollows⟩ := walk_follows hD'
    have hspare : spareLinks < maxLinks - k := by
      have hsum : spareLinks + spareLinks < maxLinks := by decide
      omega
    have hways := fun names => lookup_overlay names habs hdir hrelative hfollows
      (hk.trans (by decide)) hstands.1 hover hname hlink
    have hfound : ∀ names q,
        walk m.disk true spareLinks [] ((dir.joinText p).names ++ names) = .found q →
        lookup m true (((dir.child overlayName).child name).descend names) = .found q := by
      intro names q hq
      rw [hways names]
      exact atLink_of_walk hspare hq
    refine isSkill_iff.mpr ⟨⟨q, ?_, hisdir⟩, f, hfound ["SKILL.md"] f hf, ?_⟩
    · rw [hhere]
      exact hfound [] q (by rwa [List.append_nil])
    · rw [Disk.isDirAt, hfile]

/-- **With an overlay**, of the paths with one last segment the source has the last, if it is a
skill, at its own directory. -/
theorem overlay_served {paths before after names : List String} {s s' : Refreshing C}
    (hdir : ∀ name ∈ source.cacheDir.names, Sliced name)
    (hpaths : source.allowedSkillPaths = some paths) (hover : overlaid source = true)
    (hvalid : validateAllowedPaths host.py paths = .ok ())
    (hready : OverlayReady s.machine source.cacheDir D)
    (h : buildLocal host source s = (.ok names, s')) (hsplit : paths = before ++ p :: after)
    (hlast : baseName p ∉ after.map baseName) :
    ((bound source).reader.hasSkill s'.machine (baseName p) = true →
        isSkill s'.machine (source.cacheDir.joinText p) = true ∧
          AnswersWith (bound source) s'.machine p) ∧
      (HeldApart s.machine source.cacheDir D p →
        (bound source).reader.hasSkill s'.machine (baseName p) = true) := by
  obtain ⟨-, ⟨hflat, -⟩ | ⟨-, s₁, s₂, hmkdir, hlinks, hmachine⟩⟩ := buildLocal_paths hpaths h
  · rw [hover] at hflat
    cases hflat
  have hmem : p ∈ paths := by
    rw [hsplit]
    exact List.mem_append_right _ List.mem_cons_self
  have hvalidated := validateAllowedPaths_mem hvalid hmem
  have hplain := validateAllowedPath_name hvalidated
  have hrelative := validateAllowedPath_relative hvalidated
  have hnames := validateAllowedPaths_names hvalid
  -- the overlay's directory is made
  have hentry : s.machine.disk.get? (overlayAt D) = none ∨
      s.machine.disk.get? (overlayAt D) = some .dir := by
    cases he : s.machine.disk.get? (overlayAt D) with
    | none => exact .inl rfl
    | some e =>
      rw [← List.append_nil (overlayAt D)] at he
      rcases hready.links [] e he with ⟨-, rfl⟩ | ⟨name, hnil, -⟩
      · exact .inr rfl
      · cases hnil
  obtain ⟨hwork, hmade⟩ : s₁.machine.workdir = s.machine.workdir ∧ ∀ q, s₁.machine.disk.get? q =
      if q = overlayAt D then some .dir else s.machine.disk.get? q :=
    mkdirHere_eq_ok hready.stands.leads.goesOn overlayName_entry hentry hmkdir
  have hsame : SameOff {overlayAt D} s.machine s₁.machine := by
    refine ⟨hwork, fun q hq => ?_⟩
    rw [hmade, if_neg]
    rintro rfl
    exact hq _ rfl List.prefix_rfl
  have hm : HasOverlay source.cacheDir D s₁.machine := by
    refine ⟨?_, (hmade _).trans (if_pos rfl), fun name rest e he => ?_⟩
    · rw [sys_of_absolute hready.absolute]
      refine hready.stands.mono ⟨hwork, fun q hq => hsame.same q ?_⟩
      rintro place rfl hpre
      exact hq (below_entry hpre)
    · rw [hmade, if_neg fun hq => List.cons_ne_nil name rest (List.append_right_eq_self.mp hq)] at he
      rcases hready.links _ e he with ⟨hnil, -⟩ | ⟨name', hcons, hlink⟩
      · cases hnil
      · exact ⟨(List.cons.inj hcons).2, hlink⟩
  -- the loop leaves the link of the last path
  rw [hsplit] at hnames hlinks
  obtain ⟨m₁, hm₁, hlinked⟩ := linkAll_last hm hnames hlast hlinks
  obtain ⟨hm₂, hsame₂⟩ := linkAll_eq_ok hm hnames hlinks
  have hstands : StandsAt s₂.machine source.cacheDir D := by
    rw [← sys_of_absolute hready.absolute]
    exact hm₂.stands
  have hroot : skillRoot source = source.cacheDir.child overlayName := by
    rw [skillRoot, hover, if_pos rfl]
    rfl
  have hiff : (bound source).reader.hasSkill s₂.machine (baseName p) = true ↔
      isSkill s₂.machine ((source.cacheDir.child overlayName).child (baseName p)) = true := by
    rw [bound_hasSkill_root hdir, hroot]
    exact and_iff_right hplain
  have hname := isEntryName_of_isPlainName hplain
  have hpath : skillPath source (baseName p) =
      (source.cacheDir.child overlayName).child (baseName p) := by
    have habs : (source.cacheDir.child overlayName).absolute = true := hready.absolute
    rw [skillPath_eq hdir, hroot, sys_of_absolute habs]
  rw [hmachine]
  by_cases hexists : exists? m₁ (source.cacheDir.joinText p) = true
  · rw [if_pos hexists] at hlinked
    obtain ⟨hleads, hholds⟩ := overlay_leads hstands hready.absolute hdir hrelative hm₂.dir hname
      hlinked
    refine ⟨fun hskill => ?_, fun hheld => ?_⟩
    · obtain ⟨hskill', q, hq, hq'⟩ := hleads (hiff.mp hskill)
      exact ⟨hskill', _, q, bound_skillDir.mpr ⟨hskill, rfl⟩, hpath ▸ hq, hq'⟩
    · have hoff : SameOff {overlayAt D} s.machine s₂.machine := by
        refine hsame.trans (hsame₂.mono ?_)
        rintro place ⟨name, -, rfl⟩
        exact ⟨_, rfl, List.prefix_append _ _⟩
      obtain ⟨q, f, content, hq, hisdir, hf, hfile⟩ := hheld _ hoff
      exact hiff.mpr (hholds q f content hq hisdir hf hfile)
  · rw [if_neg hexists] at hlinked
    refine ⟨fun hskill => ?_, fun hheld => ?_⟩
    · obtain ⟨⟨q, hq, -⟩, -⟩ := isSkill_iff.mp (hiff.mp hskill)
      have hchild := Disk.mem_children.mp (GoesOn.mem_children hm₂.goesOn hname hq)
      rw [hlinked] at hchild
      cases hchild
    · obtain ⟨q, -, -, hq, -⟩ := hheld m₁ (hsame.trans hm₁)
      refine absurd ?_ hexists
      have habs : (source.cacheDir.joinText p).absolute = true := by
        rw [joinText_relative _ hrelative]
        exact hready.absolute
      have hfound := (lookup_absolute (m := m₁) habs).trans
        (walk_more (show spareLinks ≤ maxLinks by decide) hq)
      rw [exists?, hfound]

end Served

/-! ## A whole refresh -/

/-- A refresh up to the checkout. -/
def checkOutTree (host : GitHost C) (ref : Option String) : Refresh C Unit := do
  rebindRef ref
  let source ← Act.read Refreshing.source
  checkPaths host.py source
  ensureCacheDir host source
  cloneMissing host source
  setSparse host source
  let _ ← checkOut host source
  pure ()

/-- The machine once the tree is checked out. -/
def checkedOutAt (host : GitHost C) (ref : Option String) (s : Refreshing C) : Machine C :=
  (checkOutTree host ref s).2.machine

/-- The last stage of a refresh starts where the tree is checked out. -/
theorem refresh_builds {ref : Option String} {s s' : Refreshing C} {r : RefreshResult}
    (h : refresh host ref s = (.ok r, s')) : ∃ s₁, s₁.machine = checkedOutAt host ref s ∧
      s'.source = bound (s.withRef ref).source ∧
      (∀ paths, (s.withRef ref).source.allowedSkillPaths = some paths →
        validateAllowedPaths host.py paths = .ok ()) ∧
      buildLocal host (s.withRef ref).source s₁ = (.ok r.materializedPaths, s') := by
  have hsource := refresh_source h
  obtain ⟨stages⟩ := refresh_eq_ok h
  refine ⟨stages.checkedOut, ?_, hsource, stages.paths, stages.build⟩
  rcases rebindRef_eq ref s with hrebind | ⟨e, hrebind⟩
  · rcases checkPaths_eq host.py (s.withRef ref).source (s.withRef ref) with
      ⟨hcheck, -⟩ | ⟨e, hcheck⟩
    · rw [checkedOutAt, checkOutTree, Act.bind_of_ok hrebind, Act.read_bind, Act.bind_of_ok hcheck,
        Act.bind_of_ok stages.ensure, Act.bind_of_ok stages.clone, Act.bind_of_ok stages.setSparse,
        Act.bind_of_ok stages.checkOut]
      rfl
    · rw [refresh, Act.bind_of_ok hrebind, Act.read_bind, Act.bind_of_error hcheck] at h
      cases h
  · rw [refresh, Act.bind_of_error hrebind] at h
    cases h

/-- **What a refresh materializes.** Without allowed paths, the names are those of a scan. With
allowed paths, they are the last segments of these, one for each; without a nested path the source
has those of the paths that are skills, and with one, of the paths with one last segment the last,
if it is a skill. It answers with the directory of the path. -/
theorem refresh_serves {ref : Option String} {s s' : Refreshing C} {r : RefreshResult} {dir : String}
    (h : refresh host ref s = (.ok r, s')) (hdir : s.source.cacheDir = purePath dir) :
    (s'.source.allowedSkillPaths = none → ScanServed s'.source r.materializedPaths s'.machine) ∧
    ∀ paths, s'.source.allowedSkillPaths = some paths →
      r.materializedPaths = paths.map baseName ∧
      (overlaid s'.source = false → ∀ p ∈ paths,
        (s'.source.reader.hasSkill s'.machine (baseName p) = true ↔
          isSkill s'.machine (s'.source.cacheDir.joinText p) = true) ∧
        (s'.source.reader.hasSkill s'.machine (baseName p) = true →
          AnswersWith s'.source s'.machine p)) ∧
      (overlaid s'.source = true → ∀ D, OverlayReady (checkedOutAt host ref s) s'.source.cacheDir D →
        ∀ before p after, paths = before ++ p :: after → baseName p ∉ after.map baseName →
          (s'.source.reader.hasSkill s'.machine (baseName p) = true →
            isSkill s'.machine (s'.source.cacheDir.joinText p) = true ∧
              AnswersWith s'.source s'.machine p) ∧
          (HeldApart (checkedOutAt host ref s) s'.source.cacheDir D p →
            s'.source.reader.hasSkill s'.machine (baseName p) = true)) := by
  obtain ⟨s₁, hs₁, hsource, hvalid, hbuild⟩ := refresh_builds h
  have hsliced : ∀ name ∈ (s.withRef ref).source.cacheDir.names, Sliced name := by
    show ∀ name ∈ s.source.cacheDir.names, Sliced name
    rw [hdir]
    exact purePath_sliced dir
  rw [hsource, ← hs₁]
  refine ⟨fun hnone => scan_served hsliced hnone hbuild, fun paths hpaths => ?_⟩
  refine ⟨(buildLocal_paths hpaths hbuild).1, fun hflat p hp => ?_, fun hover D hready before p
    after hsplit hlast => ?_⟩
  · exact flat_served hsliced hpaths hflat (hvalid paths hpaths) hp
  · exact overlay_served hsliced hpaths hover (hvalid paths hpaths) hready hbuild hsplit hlast

/-! ## Concrete trees -/

/-- A refresh of a new cache directory from a repository with this tree. -/
def refreshedFrom (tree : List (Location × Entry (List Char))) (cacheDir : String)
    (allowedSkillPaths : Option (List String)) :
    Except RefreshError RefreshResult × Refreshing (List Char) :=
  refresh (treeGit tree) none
    { source := { repoUrl := "url", ref := "main", cacheDir := purePath cacheDir, allowedSkillPaths }
      machine := { disk := .empty } }

/-- The names it returned. -/
def materializedOf (out : Except RefreshError RefreshResult × Refreshing (List Char)) :
    List String :=
  match out.1 with
  | .ok r => r.materializedPaths
  | .error _ => []

def hasSkillAfter (out : Except RefreshError RefreshResult × Refreshing (List Char))
    (name : String) : Bool :=
  out.2.source.reader.hasSkill out.2.machine name

/-- Where the directory of a skill is. -/
def skillDirAfter (out : Except RefreshError RefreshResult × Refreshing (List Char))
    (name : String) : Option Location :=
  match out.2.source.reader.skillDir out.2.machine name with
  | .error _ => none
  | .ok dir =>
    match lookup out.2.machine true dir with
    | .found q => some q
    | _ => none

/-- A directory with a `SKILL.md`. -/
def skillAt (q : Location) : List (Location × Entry (List Char)) :=
  [(q, .dir), (q ++ ["SKILL.md"], .file "# skill".toList)]

theorem refreshedFrom_returns {tree : List (Location × Entry (List Char))} {cacheDir : String}
    {paths : Option (List String)} (h : (refreshedFrom tree cacheDir paths).1.isOk = true) :
    ∃ r, refresh (treeGit tree) none
        { source := { repoUrl := "url", ref := "main", cacheDir := purePath cacheDir
                      allowedSkillPaths := paths }
          machine := { disk := .empty } } = (.ok r, (refreshedFrom tree cacheDir paths).2) ∧
      materializedOf (refreshedFrom tree cacheDir paths) = r.materializedPaths := by
  unfold refreshedFrom at h ⊢
  generalize refresh (treeGit tree) none _ = out at h ⊢
  obtain ⟨answer, s⟩ := out
  cases answer with
  | error e => cases h
  | ok r => exact ⟨r, rfl, rfl⟩

/-- One nested skill, and a path that the tree does not have. -/
def oneSkill : Except RefreshError RefreshResult × Refreshing (List Char) :=
  refreshedFrom ((["a"], .dir) :: skillAt ["a", "x"]) "/cache" (some ["a/x", "b/y"])

theorem refresh_serves_nested :
    materializedOf oneSkill = ["x", "y"] ∧ hasSkillAfter oneSkill "x" = true ∧
      AnswersWith oneSkill.2.source oneSkill.2.machine "a/x" := by
  have hok : oneSkill.1.isOk = true := by decide +kernel
  have hcache : oneSkill.2.source.cacheDir = ⟨true, ["cache"]⟩ := by decide +kernel
  have hpaths : oneSkill.2.source.allowedSkillPaths = some ["a/x", "b/y"] := by decide +kernel
  have hover : overlaid oneSkill.2.source = true := by decide +kernel
  have hname : baseName "a/x" = "x" := by decide +kernel
  obtain ⟨r, hrefresh, hnames⟩ : ∃ r, refresh (treeGit ((["a"], .dir) :: skillAt ["a", "x"])) none
        { source := { repoUrl := "url", ref := "main", cacheDir := purePath "/cache"
                      allowedSkillPaths := some ["a/x", "b/y"] }
          machine := { disk := .empty } } = (.ok r, oneSkill.2) ∧
      materializedOf oneSkill = r.materializedPaths := refreshedFrom_returns hok
  obtain ⟨-, hserves⟩ := refresh_serves hrefresh (show _ = purePath "/cache" from rfl)
  obtain ⟨hmaterialized, -, hnested⟩ := hserves _ hpaths
  generalize htree : checkedOutAt _ _ _ = tree at hnested
  have hready : OverlayReady tree oneSkill.2.source.cacheDir ["cache"] := by
    rw [hcache]
    refine overlayReady_of_missing (Disk.isDirAt_iff.mp ?_) (Option.isNone_iff_eq_none.mp ?_)
    · rw [← htree]
      decide +kernel
    · rw [← htree]
      decide +kernel
  obtain ⟨hskill, hheld⟩ := hnested hover ["cache"] hready [] "a/x" ["b/y"] rfl (by decide +kernel)
  have hdir : tree.disk.get? (["cache"] ++ (purePath "a/x").names) = some .dir := by
    rw [← htree]
    exact Disk.isDirAt_iff.mp (by decide +kernel)
  have hfile : tree.disk.get? (["cache"] ++ (purePath "a/x").names ++ ["SKILL.md"]) =
      some (.file "# skill".toList) := by
    rw [← htree]
    rfl
  have hhas : hasSkillAfter oneSkill "x" = true := by
    rw [← hname]
    exact hheld (heldApart_of_tree hcache (by decide) (by decide +kernel) hdir hfile)
  refine ⟨hnames.trans (hmaterialized.trans (by decide +kernel)), hhas, (hskill ?_).2⟩
  rw [hname]
  exact hhas

/-- Two paths of one last segment, and one that the tree does not have. -/
def twoOfOneName : Except RefreshError RefreshResult × Refreshing (List Char) :=
  refreshedFrom ((["a"], .dir) :: (["b"], .dir) :: (skillAt ["a", "x"] ++ skillAt ["b", "x"]))
    "/cache" (some ["a/x", "b/x", "c/y"])

/-- A directory without a `SKILL.md`, and a skill whose name starts with a dot. -/
def scannedTree : Except RefreshError RefreshResult × Refreshing (List Char) :=
  refreshedFrom ((["docs"], .dir) :: skillAt [".s"]) "/cache" none

/-- One nested skill, in a cache directory given by a relative path. -/
def relativeCache : Except RefreshError RefreshResult × Refreshing (List Char) :=
  refreshedFrom ((["a"], .dir) :: skillAt ["a", "x"]) "cache" (some ["a/x"])

/-- One nested skill, and a link to its parent under the name of the overlay. -/
def linkedOverlay : Except RefreshError RefreshResult × Refreshing (List Char) :=
  refreshedFrom ((["a"], .dir) :: (overlayAt [], .link "a") :: skillAt ["a", "x"]) "/cache"
    (some ["a/x"])

/-- **Names without skills, and skills without names.** A name is there twice, and the directory is
that of the last path; a name is there whose path is not; a scan names a directory that is no skill,
and not a skill that starts with a dot. With a relative cache directory the nested skill is not
found, and where the overlay's name is taken by a link, building the overlay removes the skill. -/
theorem names_are_no_skills :
    materializedOf twoOfOneName = ["x", "x", "y"] ∧ hasSkillAfter twoOfOneName "y" = false ∧
      isSkill twoOfOneName.2.machine
        (twoOfOneName.2.source.cacheDir.joinText "a/x") = true ∧
      skillDirAfter twoOfOneName "x" = some ["cache", "b", "x"] ∧
    materializedOf scannedTree = ["docs"] ∧ hasSkillAfter scannedTree "docs" = false ∧
      hasSkillAfter scannedTree ".s" = true ∧
    materializedOf relativeCache = ["x"] ∧ hasSkillAfter relativeCache "x" = false ∧
      isSkill relativeCache.2.machine
        (relativeCache.2.source.cacheDir.joinText "a/x") = true ∧
    materializedOf linkedOverlay = ["x"] ∧ hasSkillAfter linkedOverlay "x" = false ∧
      exists? linkedOverlay.2.machine
        (linkedOverlay.2.source.cacheDir.joinText "a/x") = false := by
  decide +kernel

end ClawEngine.Skills
