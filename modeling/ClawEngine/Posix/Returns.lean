import ClawEngine.Posix.Copies

/-!
# When copying returns

On a machine whose operations meet no fault it depends on the trees alone whether
`shutil.copytree` to an entry of a directory returns: `copytree_fits`. A tree fits over another if
no directory of it meets a file, no file of it that meets a directory meets one of its own name in
there too, and it is not too deep for the recursion. No link stands at or below the entry, and none
in the source is broken.
-/

set_option autoImplicit false

namespace ClawEngine.Posix

open ClawEngine.Core ClawEngine.Core.Act

variable {C : Type}

/-! ## Trees that fit -/

/-- The tree `src`, whose own name is `base`, can be laid over `old` by a copy that may call itself
`fuel` times. -/
structure FitsOver (fuel : Nat) (base : String) (src old : Tree C) : Prop where
  dir : ∀ rel, src rel = some .dir → ∀ content, old rel ≠ some (.file content)
  file : ∀ rel content, src rel = some (.file content) → old rel = some .dir →
    old (rel ++ [rel.getLastD base]) ≠ some .dir
  depth : ∀ rel, src rel = some .dir → rel.length < fuel

section Fitting

variable {fuel : Nat} {base : String} {src old new : Tree C} {content : C}

theorem fitsOver_absent (hsrc : ∀ rel, src rel = none) : FitsOver fuel base src old := by
  refine ⟨fun rel h => ?_, fun rel content h => ?_, fun rel h => ?_⟩
  · rw [hsrc] at h
    cases h
  · rw [hsrc] at h
    cases h
  · rw [hsrc] at h
    cases h

theorem fitsOver_file (hfile : src [] = some (.file content))
    (hbelow : ∀ name rel, src (name :: rel) = none) :
    FitsOver fuel base src old ↔ (old [] = some .dir → old [base] ≠ some .dir) := by
  constructor
  · exact fun h hold => h.file [] content hfile hold
  · intro h
    refine ⟨fun rel hdir => ?_, fun rel content' hfile' hold => ?_, fun rel hdir => ?_⟩
    · cases rel with
      | nil =>
        rw [hfile] at hdir
        cases hdir
      | cons name rel =>
        rw [hbelow] at hdir
        cases hdir
    · cases rel with
      | nil => exact h hold
      | cons name rel =>
        rw [hbelow] at hfile'
        cases hfile'
    · cases rel with
      | nil =>
        rw [hfile] at hdir
        cases hdir
      | cons name rel =>
        rw [hbelow] at hdir
        cases hdir

/-- A directory fits if it meets no file and what is under each name fits. -/
theorem fitsOver_dir (hdir : src [] = some .dir) :
    FitsOver (fuel + 1) base src old ↔ (∀ content, old [] ≠ some (.file content)) ∧
      ∀ name, FitsOver fuel name (src.under name) (old.under name) := by
  constructor
  · intro h
    refine ⟨h.dir [] hdir, fun name => ⟨fun rel => h.dir (name :: rel), fun rel content hfile => ?_,
      fun rel hrel => ?_⟩⟩
    · have hlast := h.file (name :: rel) content hfile
      rwa [List.getLastD_cons] at hlast
    · exact Nat.lt_of_succ_lt_succ (h.depth (name :: rel) hrel)
  · rintro ⟨hroot, hunder⟩
    refine ⟨fun rel hrel => ?_, fun rel content hfile => ?_, fun rel hrel => ?_⟩
    · cases rel with
      | nil => exact hroot
      | cons name rel => exact (hunder name).dir rel hrel
    · cases rel with
      | nil =>
        rw [hdir] at hfile
        cases hfile
      | cons name rel =>
        rw [List.getLastD_cons]
        exact (hunder name).file rel content hfile
    · cases rel with
      | nil => exact Nat.succ_pos fuel
      | cons name rel => exact Nat.succ_lt_succ ((hunder name).depth rel hrel)

/-- What has been laid over a tree fits over the result. -/
theorem FitsOver.again (h : FitsOver fuel base src old) (hlaid : LaidOver base src old new) :
    FitsOver fuel base src new where
  dir rel hdir content hfile := by
    rw [hlaid.dir rel hdir] at hfile
    cases hfile
  file rel content hfile hdir := by
    by_cases hold : old rel = some .dir
    · rw [(hlaid.inside rel content hfile hold).2]
      exact nofun
    · rw [hlaid.file rel content hfile hold] at hdir
      cases hdir
  depth := h.depth

end Fitting

/-! ## Machines whose operations meet no fault -/

/-- No operation meets a fault. -/
def Calm (m : Machine C) : Prop := ∀ n, m.faults n = none

theorem calm_writes : Writes (Calm (C := C)) Set.univ fun _ => True where
  tick _ _ h := h
  dir _ _ _ h _ _ := h
  lands _ _ _ _ _ _ := trivial
  file _ _ _ h _ := h
  head _ _ _ _ _ := Set.mem_univ _
  child _ _ _ _ := Set.mem_univ _

/-- No operation from now on meets a fault. -/
def CalmAhead (m : Machine C) : Prop := ∀ n, m.tick ≤ n → m.faults n = none

section Operations

variable {m m' : Machine C} {dest src : PosixPath} {R : Location} {s name : String}

/-- A directory at a slot is found there. -/
theorem Slot.lookup_dir (h : Slot m dest R s) (hdir : m.disk.get? (R ++ [s]) = some .dir) :
    Posix.lookup m true (dest.child s) = .found (R ++ [s]) :=
  lookup_located_below h.leads (List.cons_ne_nil s []) hdir rfl

theorem Calm.ahead (h : Calm m) : CalmAhead m := fun n _ => h n

theorem CalmAhead.check (h : CalmAhead m) : checkFault m = (.ok (), m.next) := by
  simp only [checkFault, h m.tick (Nat.le_refl _)]
  rfl

theorem Calm.check (h : Calm m) : checkFault m = (.ok (), m.next) := h.ahead.check

theorem Calm.next (h : Calm m) : Calm m.next := h

/-- Making a directory that is there returns. -/
theorem mkdirExistOk_leads (h : Leads m dest R) : mkdirExistOk dest m = (.ok (), m.next) := by
  obtain ⟨q, hq⟩ := lookup_nofollow h.found
  obtain ⟨e, hmade, -⟩ := mkdir_found hq
  have hisdir : isdir m.next dest = true := by
    rw [isdir, Machine.lookup_next, h.found]
    exact Disk.isDirAt_iff.mpr h.dir
  refine bind_eq_ok.mpr ⟨.error e, m.next, attempt_eq_ok.mpr hmade, ?_⟩
  exact bind_eq_ok.mpr ⟨true, m.next, read_eq_ok.mpr ⟨hisdir, rfl⟩, rfl⟩

theorem makedirs_leads_returns (h : Leads m dest R) (fuel : Nat) :
    makedirs (fuel + 1) dest m = (.ok (), m.next) :=
  bind_eq_ok.mpr ⟨false, m, read_eq_ok.mpr ⟨lacksHead_of_found h.found, rfl⟩, mkdirExistOk_leads h⟩

/-- **When `makedirs` returns, at a slot**: no file is there. -/
theorem makedirs_slot_returns (h : Slot m dest R s) (hcalm : Calm m) (fuel : Nat) :
    Returns (makedirs (fuel + 1) (dest.child s)) m ↔
      ∀ content, m.disk.get? (R ++ [s]) ≠ some (.file content) := by
  constructor
  · rintro ⟨_, m', hok⟩ content hfile
    have hexpands := makedirs_slot_expands h hok
    obtain ⟨content', hkept⟩ := hexpands.kept.file hfile
    rw [makedirs_slot h hok] at hkept
    cases hkept
  · intro hnofile
    have hlook := h.leads.goesOn.lookup_child h.name
    have hmake : Returns (mkdirExistOk (dest.child s)) m := by
      cases hentry : m.disk.get? (R ++ [s]) with
      | none =>
        rw [if_pos hentry] at hlook
        have hmade : mkdir (dest.child s) m =
            (.ok (), { m.next with disk := m.disk.put (R ++ [s]) .dir }) := by
          refine (bind_of_ok hcalm.check).trans ?_
          have hlook' : lookup m.next false (dest.child s) = .missing (R ++ [s]) := hlook
          simp only [hlook']
          rfl
        exact ⟨(), _, bind_eq_ok.mpr ⟨.ok (), _, attempt_eq_ok.mpr hmade, rfl⟩⟩
      | some e =>
        cases e with
        | dir => exact ⟨(), m.next, mkdirExistOk_leads ⟨hentry, h.lookup_dir hentry⟩⟩
        | file content => exact absurd hentry (hnofile content)
        | link target => exact absurd hentry (h.noLinks _ (List.prefix_refl _) target)
    obtain ⟨_, m', hok⟩ := hmake
    refine ⟨(), m', bind_eq_ok.mpr ⟨false, m, read_eq_ok.mpr ⟨h.lacksHead, rfl⟩, hok⟩⟩

/-- **When `open` for writing returns, at a slot**: no directory is there. -/
theorem openWrite_slot_returns [Inhabited C] (h : Slot m dest R s) (hcalm : CalmAhead m) :
    Returns (openWrite (dest.child s)) m ↔ m.disk.get? (R ++ [s]) ≠ some .dir := by
  constructor
  · rintro ⟨q, m', hok⟩
    exact (openWrite_slot_get h hok).2.1
  · intro hnodir
    have hlook := h.leads.goesOn.lookup_plain h.name (h.noLinks _ (List.prefix_refl _))
    have hopen : Returns (openWrite (dest.child s)) m ↔ _ := returns_bind
    refine hopen.mpr ⟨(), m.next, hcalm.check, ?_⟩
    have hlook' : lookup m.next true (dest.child s) = lookup m true (dest.child s) := rfl
    have hnot : m.next.disk.isDirAt (R ++ [s]) = false := by
      rw [← Bool.not_eq_true, Disk.isDirAt_iff]
      exact hnodir
    unfold Returns
    simp only [hlook', hlook]
    split
    next hq =>
      split at hq
      · cases hq
      · cases hq
        rw [hnot]
        exact ⟨_, _, rfl⟩
    next hq => exact ⟨_, _, rfl⟩
    next hq => split at hq <;> cases hq

/-- Opening a file leaves the faults ahead as they were. -/
theorem openWrite_ahead [Inhabited C] {p : PosixPath} {q : Location} (hcalm : CalmAhead m)
    (hok : openWrite p m = (.ok q, m')) : CalmAhead m' := by
  obtain ⟨_, m₁, hcheck, hopen⟩ := bind_eq_ok.mp hok
  have hnext : CalmAhead m.next := fun n hn => hcalm n (Nat.le_of_succ_le hn)
  cases hcalm.check.symm.trans hcheck
  split at hopen
  · split at hopen
    · cases hopen
    · cases hopen
      exact hnext
  · cases hopen
    exact hnext
  · cases hopen

theorem writeAt_calm (hcalm : CalmAhead m) (q : Location) (content : C) :
    Returns (writeAt q content) m := by
  refine ⟨(), { m with disk := m.disk.put q (.file content), tick := m.tick + 1 }, ?_⟩
  unfold writeAt
  rw [hcalm m.tick (Nat.le_refl _)]

/-- So does writing a file. -/
theorem writeFile_slot_returns [Inhabited C] (h : Slot m dest R s) (hcalm : CalmAhead m)
    (content : C) :
    Returns (writeFile (dest.child s) content) m ↔ m.disk.get? (R ++ [s]) ≠ some .dir := by
  rw [← openWrite_slot_returns h hcalm]
  constructor
  · rintro ⟨u, m', hok⟩
    obtain ⟨q, m₁, hopen, -⟩ := bind_eq_ok.mp hok
    exact ⟨q, m₁, hopen⟩
  · rintro ⟨q, m₁, hopen⟩
    obtain ⟨u, m₂, hwrite⟩ := writeAt_calm (openWrite_ahead hcalm hopen) q content
    exact ⟨u, m₂, bind_eq_ok.mpr ⟨q, m₁, hopen, hwrite⟩⟩

/-- **When `copyfile` returns, at a slot**, from a file that is not there: no directory is. -/
theorem copyfile_slot_returns [Inhabited C] (h : Slot m dest R s) (hcalm : Calm m)
    (hname : isEntryName name = true) (hclear : ClearOf {R ++ [s]} m (src.child name))
    {content : C} (hfile : entryOf m (src.child name) = some (.file content)) :
    Returns (copyfile (src.child name) (dest.child s)) m ↔ m.disk.get? (R ++ [s]) ≠ some .dir := by
  constructor
  · rintro ⟨_, m', hok⟩
    obtain ⟨-, -, hnodir, -⟩ := copyfile_slot h hname hclear hok
    exact hnodir
  · intro hnodir
    unfold entryOf at hfile
    split at hfile
    case h_2 => cases hfile
    case h_1 q hq =>
    have hoff : q ≠ R ++ [s] := by
      have hmem := hclear.found_mem hname hq
      rintro rfl
      exact hmem _ rfl List.prefix_rfl
    have hself : ∀ r, lookup m true (dest.child s) = .found r → r = R ++ [s] :=
      fun r hr => h.lookup_self (.inl hr)
    have hsame : samefile m (src.child name) (dest.child s) = false := by
      unfold samefile
      rw [hq]
      cases hlook : lookup m true (dest.child s) with
      | found r =>
        rw [hself r hlook]
        exact decide_eq_false hoff
      | missing r => rfl
      | error e => rfl
    have hread : openRead (src.child name) m = (.ok q, m.next) := by
      refine (bind_of_ok hcalm.check).trans ?_
      have hq' : lookup m.next true (src.child name) = .found q := hq
      have hnot : m.next.disk.isDirAt q = false := by
        show m.disk.isDirAt q = false
        rw [Disk.isDirAt, hfile]
      simp only [readE, hq', hnot, Bool.false_eq_true, if_false]
    have hslot : Slot m.next dest R s := ⟨⟨h.leads.dir, h.leads.found⟩, h.name, h.noLinks⟩
    obtain ⟨r, m₂, hopen⟩ := (openWrite_slot_returns hslot hcalm.next.ahead).mpr hnodir
    obtain ⟨rfl, -, -, hopened⟩ := openWrite_slot_get hslot hopen
    have hcalm₂ : Calm m₂ :=
      (calm_writes.toFills.openWrite (Set.mem_univ _)).of_eq hcalm.next hopen
    have hcontent : readAt q m₂ = (.ok content, m₂.next) := by
      refine (bind_of_ok hcalm₂.check).trans ?_
      have hentry : m₂.next.disk.get? q = some (.file content) := by
        show m₂.disk.get? q = _
        rw [hopened, if_neg hoff]
        exact hfile
      simp only [readE, hentry]
    obtain ⟨_, m', hwrite⟩ := writeAt_calm hcalm₂.next.ahead (R ++ [s]) content
    refine ⟨(), m', bind_eq_ok.mpr ⟨false, m, read_eq_ok.mpr ⟨hsame, rfl⟩, ?_⟩⟩
    refine mapError_eq_ok.mpr (bind_eq_ok.mpr ⟨q, m.next, hread, ?_⟩)
    refine bind_eq_ok.mpr ⟨_, m₂, hopen, bind_eq_ok.mpr ⟨content, m₂.next, hcontent, hwrite⟩⟩

theorem copystat_returns {src dst : PosixPath} (hcalm : Calm m) (hsrc : exists? m src = true)
    (hdst : exists? m dst = true) : Returns (copystat src dst) m := by
  refine returns_bind.mpr ⟨(), m.next, hcalm.check, (), m.next, readE_eq_ok.mpr ⟨?_, rfl⟩⟩
  have hboth : (exists? m.next src && exists? m.next dst) = true := by
    rw [Bool.and_eq_true]
    exact ⟨hsrc, hdst⟩
  rw [if_pos hboth]

/-- What stands at a slot exists. -/
theorem Slot.exists_child (h : Slot m dest R s) {e : Entry C}
    (he : m.disk.get? (R ++ [s]) = some e) : exists? m (dest.child s) = true := by
  have hlink : e.isLink = false := by
    cases e with
    | link target => exact absurd he (h.noLinks _ (List.prefix_refl _) target)
    | _ => rfl
  have hfound : Posix.lookup m true (dest.child s) = .found (R ++ [s]) :=
    lookup_located_below h.leads (List.cons_ne_nil s []) he hlink
  rw [exists?, hfound]

theorem exists_of_entryOf {p : PosixPath} {e : Entry C} (h : entryOf m p = some e) :
    exists? m p = true := by
  unfold entryOf at h
  split at h
  next q hq => rw [exists?, hq]
  · cases h

/-- After a file was copied to a slot its times and permissions are. -/
theorem copyfile_copystat_returns [Inhabited C] (h : Slot m dest R s) (hcalm : Calm m)
    (hname : isEntryName name = true) (hclear : ClearOf {R ++ [s]} m (src.child name))
    {content : C} (hfile : entryOf m (src.child name) = some (.file content)) :
    Returns (do
        copyfile (src.child name) (dest.child s)
        (copystat (src.child name) (dest.child s)).mapError FsError.os) m ↔
      m.disk.get? (R ++ [s]) ≠ some .dir := by
  rw [← copyfile_slot_returns h hcalm hname hclear hfile, returns_bind]
  constructor
  · rintro ⟨u, m', hok, -⟩
    exact ⟨u, m', hok⟩
  · rintro ⟨u, m', hok⟩
    have hthrough := child_through dest s
    have hexpands := (h.writes.toFills.copyfile (src.child name) hthrough).of_eq (.refl _ m) hok
    obtain ⟨_, -, -, hget⟩ := copyfile_slot h hname hclear hok
    refine ⟨u, m', hok, returns_mapError.mpr (copystat_returns ?_ ?_ ?_)⟩
    · exact (calm_writes.toFills.copyfile _ (Set.mem_univ _)).of_eq hcalm hok
    · rw [hclear.exists_eq hexpands.sameOff]
      exact exists_of_entryOf hfile
    · exact (h.after hexpands).exists_child (by rw [hget, if_pos rfl])

/-- **When `copy2` returns, at a slot of the same name**. -/
theorem copy2_slot_returns [Inhabited C] (h : Slot m dest R s) (hcalm : Calm m)
    (hapart : Apart {R ++ [s]} m (src.child s)) {content : C}
    (hfile : entryOf m (src.child s) = some (.file content)) (fuel : Nat) :
    Returns (copy2 (src.child s) (dest.child s)) m ↔
      FitsOver fuel s (treeOf m (src.child s)) (m.disk.treeAt (R ++ [s])) := by
  rw [fitsOver_file (by rw [treeOf_nil, hfile]) (treeOf_below_file hfile), Disk.treeAt,
    List.append_nil]
  have hcopy : ∀ p, (if isdir m (dest.child s) = true then (dest.child s).child (src.child s).basename
      else dest.child s) = p → (Returns (copy2 (src.child s) (dest.child s)) m ↔ Returns (do
        copyfile (src.child s) p
        (copystat (src.child s) p).mapError FsError.os) m) := by
    rintro p rfl
    exact Iff.rfl
  by_cases hdir : m.disk.get? (R ++ [s]) = some .dir
  · have hisdir : isdir m (dest.child s) = true := by
      rw [isdir, h.lookup_dir hdir]
      exact Disk.isDirAt_iff.mpr hdir
    rw [hcopy ((dest.child s).child s) (by rw [if_pos hisdir, PosixPath.basename_child]),
      copyfile_copystat_returns (h.child hdir h.name) hcalm h.name
        (hapart.mono (covers_below _ [s])).self hfile]
    exact ⟨fun hnodir _ => hnodir, fun hnodir => hnodir hdir⟩
  · have hisdir : isdir m (dest.child s) ≠ true := fun hisdir => hdir (isdir_slot h hisdir)
    rw [hcopy (dest.child s) (if_neg hisdir),
      copyfile_copystat_returns h hcalm h.name hapart.self hfile]
    exact ⟨fun _ hdir' => absurd hdir' hdir, fun _ => hdir⟩

end Operations

/-! ## Sources that can be read -/

/-- Whatever stands in a directory of the tree is seen there: no link in it is broken. -/
def Unbroken (m : Machine C) (p : PosixPath) : Prop :=
  ∀ rel q name, (∀ n ∈ rel, isEntryName n = true) → Leads m (p.descend rel) q →
    m.disk.get? (q ++ [name]) ≠ none → entryOf m ((p.descend rel).child name) ≠ none

section Sources

variable {H : Set Location} {m m' : Machine C} {p src : PosixPath} {n name : String} {q : Location}

theorem of_mem_listing {d : Disk C} {entry : String × EntryKind} (h : entry ∈ listing d q) :
    ∃ e, d.get? (q ++ [entry.1]) = some e ∧ e.kind = entry.2 := by
  obtain ⟨name, -, hentry⟩ := List.mem_filterMap.mp h
  obtain ⟨e, he, rfl⟩ := Option.map_eq_some_iff.mp hentry
  exact ⟨e, he, rfl⟩

theorem Leads.of_entryOf (h : entryOf m p = some .dir) : ∃ q, Leads m p q := by
  unfold entryOf at h
  split at h
  next q hq => exact ⟨q, h, hq⟩
  · cases h

/-- A path below one that ends with a name of an entry ends with one. -/
theorem descend_eq_child (p : PosixPath) (hn : isEntryName n = true) {rel : List String}
    (hrel : ∀ x ∈ rel, isEntryName x = true) :
    ∃ r x, (p.child n).descend rel = PosixPath.child r x ∧ isEntryName x = true := by
  rcases List.eq_nil_or_concat rel with rfl | ⟨init, last, rfl⟩
  · exact ⟨p, n, descend_nil _, hn⟩
  · rw [List.concat_eq_append] at hrel ⊢
    exact ⟨_, last, (descend_child _ _ _).symm,
      hrel last (List.mem_append_right _ List.mem_cons_self)⟩

/-- Where such a tree leads stays, whatever happens in the places it is apart from. -/
theorem Apart.leads (h : Apart H m (p.child n)) (hn : isEntryName n = true) {rel : List String}
    (hrel : ∀ x ∈ rel, isEntryName x = true) (hm : SameOff H m m')
    (hleads : Leads m ((p.child n).descend rel) q) : Leads m' ((p.child n).descend rel) q := by
  have hclear := h rel hrel
  obtain ⟨r, x, heq, hx⟩ := descend_eq_child p hn hrel
  rw [heq] at hclear hleads ⊢
  exact ⟨(hm.same q (hclear.found_mem hx hleads.found)).trans hleads.dir,
    (hclear m' hm).trans hleads.found⟩

theorem Apart.clear_child (h : Apart H m p) {rel : List String}
    (hrel : ∀ x ∈ rel, isEntryName x = true) (hname : isEntryName name = true) :
    ClearOf H m ((p.descend rel).child name) := by
  rw [descend_child]
  refine h _ fun x hx => ?_
  rcases List.mem_append.mp hx with hx | hx
  · exact hrel x hx
  · rwa [List.mem_singleton.mp hx]

/-- What is in a directory of such a tree is off the places. -/
theorem Apart.child_off (h : Apart H m (p.child n)) (hn : isEntryName n = true) {rel : List String}
    (hrel : ∀ x ∈ rel, isEntryName x = true) (hleads : Leads m ((p.child n).descend rel) q)
    (hname : isEntryName name = true) : q ++ [name] ∈ Off H := by
  have hq : q ∈ Off H := by
    have hclear := h rel hrel
    obtain ⟨r, x, heq, hx⟩ := descend_eq_child p hn hrel
    rw [heq] at hclear hleads
    exact hclear.found_mem hx hleads.found
  intro place hplace hpre
  obtain rfl : place = q ++ [name] :=
    (List.prefix_concat_iff.mp hpre).resolve_right (hq place hplace)
  have hclear := h.clear_child hrel hname
  -- the answer is the same without what is there, and with a directory in its place
  have hgone : SameOff H m { m with disk := m.disk.prune (q ++ [name]) } := .prune hplace m
  have hnone : (m.disk.prune (q ++ [name])).get? (q ++ [name]) = none := by
    rw [Disk.get?_prune _ (List.concat_ne_nil name q), if_pos List.prefix_rfl]
  have hmissing := (h.leads hn hrel hgone hleads).goesOn.lookup_plain hname
    fun target (hlink : (m.disk.prune (q ++ [name])).get? _ = _) => by
      rw [hnone] at hlink
      cases hlink
  rw [if_pos hnone] at hmissing
  have hcan : (m.disk.prune (q ++ [name])).CanPut (q ++ [name]) :=
    Disk.canPut_of_missing hname (h.leads hn hrel hgone hleads).dir hnone
  have hmade : SameOff H m
      { m with disk := (m.disk.prune (q ++ [name])).put (q ++ [name]) .dir } := by
    refine hgone.trans ⟨rfl, fun r hr => Disk.get?_put_of_ne ?_ _⟩
    rintro rfl
    exact hr _ hplace List.prefix_rfl
  have hdir : ((m.disk.prune (q ++ [name])).put (q ++ [name]) .dir).get? (q ++ [name]) =
      some .dir := by rw [Disk.get?_put hcan, if_pos rfl]
  have hfound : lookup { m with disk := (m.disk.prune (q ++ [name])).put (q ++ [name]) .dir } true
      (((p.child n).descend rel).child name) = .found (q ++ [name]) :=
    lookup_located_below (h.leads hn hrel hmade hleads) (List.cons_ne_nil name []) hdir rfl
  rw [hclear _ hmade] at hfound
  rw [hclear _ hgone, hfound] at hmissing
  cases hmissing

theorem Unbroken.child (h : Unbroken m src) (hname : isEntryName name = true) :
    Unbroken m (src.child name) := by
  intro rel q x hrel hleads hx
  rw [child_descend] at hleads ⊢
  refine h (name :: rel) q x (fun y hy => ?_) hleads hx
  rcases List.mem_cons.mp hy with rfl | hy
  · exact hname
  · exact hrel y hy

theorem Unbroken.congr (h : Unbroken m (p.child n)) (hn : isEntryName n = true)
    (hapart : Apart H m (p.child n)) (hm : SameOff H m m') : Unbroken m' (p.child n) := by
  intro rel q name hrel hleads hthere
  obtain ⟨e, he⟩ := Option.ne_none_iff_exists'.mp hthere
  have hname := (Disk.parent_dir he).2
  have hback := (hapart.congr hm).leads hn hrel hm.symm hleads
  have hsame := hm.same _ (hapart.child_off hn hrel hback hname)
  rw [hsame] at hthere
  have hseen := h rel q name hrel hback hthere
  rwa [(hapart.clear_child hrel hname).entryOf_eq hname hm]

end Sources

/-! ## When copying a directory returns -/

section Copying

variable [Inhabited C] {m m' : Machine C} {dest p src : PosixPath} {R q : Location} {n s : String}
  {fuel : Nat} {copyDir : PosixPath → PosixPath → Fs C Unit}

/-- `copyDir` lays what it copies over what is at a slot, and returns exactly if that fits. -/
structure CopiesFit (fuel : Nat) (copyDir : PosixPath → PosixPath → Fs C Unit) : Prop
    extends Lays copyDir where
  calm : ∀ src dst, Keeps Calm (copyDir src dst)
  returns : ∀ {m : Machine C} {dest p : PosixPath} {R : Location} {n s : String},
    Slot m dest R s → Calm m → isEntryName n = true → Apart {R ++ [s]} m (p.child n) →
    Unbroken m (p.child n) → entryOf m (p.child n) = some .dir →
    (Returns (copyDir (p.child n) (dest.child s)) m ↔
      FitsOver fuel s (treeOf m (p.child n)) (m.disk.treeAt (R ++ [s])))

/-- **The copy of one entry**, which is seen, returns exactly if it fits. -/
theorem CopiesFit.copyEntry_returns (h : CopiesFit fuel copyDir) (hslot : Slot m dest R s)
    (hcalm : Calm m) (hleads : Leads m src q) {e : Entry C} (he : m.disk.get? (q ++ [s]) = some e)
    (hapart : Apart {R ++ [s]} m (src.child s)) (hunbroken : Unbroken m (src.child s))
    (hseen : entryOf m (src.child s) ≠ none) :
    Returns (copyEntry copyDir src dest (s, e.kind)) m ↔
      FitsOver fuel s (treeOf m (src.child s)) (m.disk.treeAt (R ++ [s])) := by
  have hplain : e.isLink = false → entryOf m (src.child s) = some e := by
    intro hlink
    have hfound : lookup m true (src.child s) = .found (q ++ [s]) :=
      lookup_located_below hleads (List.cons_ne_nil s []) he hlink
    rw [entryOf, hfound]
    exact he
  cases e with
  | dir => exact h.returns hslot hcalm hslot.name hapart hunbroken (hplain rfl)
  | file content => exact copy2_slot_returns hslot hcalm hapart (hplain rfl) fuel
  | link target =>
    have hread : readlink (src.child s) m = (.ok (), m) := by
      have hlook := hleads.goesOn.lookup_child hslot.name
      rw [he, if_neg (Option.some_ne_none _)] at hlook
      simp only [readlink, readE, hlook, he]
    obtain ⟨seen, hseen⟩ := Option.ne_none_iff_exists'.mp hseen
    have hisdir : linkIsDir (src.child s) m = (.ok (isdir m (src.child s)), m) := by
      have hfound := hseen
      unfold entryOf at hfound
      split at hfound
      next r hr => simp only [linkIsDir, readE, isdir, hr]
      · cases hfound
    have hcopy : copyEntry copyDir src dest (s, .link) m =
        (if isdir m (src.child s) then copyDir (src.child s) (dest.child s)
          else copy2 (src.child s) (dest.child s)) m :=
      (bind_of_ok (mapError_eq_ok.mpr hread)).trans (bind_of_ok (mapError_eq_ok.mpr hisdir))
    show (∃ _ _, copyEntry copyDir src dest (s, .link) m = _) ↔ _
    rw [hcopy]
    cases seen with
    | dir =>
      rw [if_pos ((isdir_eq_entryOf m _).mpr hseen)]
      exact h.returns hslot hcalm hslot.name hapart hunbroken hseen
    | file content =>
      rw [if_neg fun hdir => by rw [(isdir_eq_entryOf m _).mp hdir] at hseen; cases hseen]
      exact copy2_slot_returns hslot hcalm hapart hseen fuel
    | link target =>
      refine absurd hseen ?_
      have hnone := treeOf_noLink (m := m) (p := src) hslot.name [] target
      rwa [treeOf_nil] at hnone

theorem CopiesFit.copyEntry_calm (h : CopiesFit fuel copyDir) (src dst : PosixPath)
    (entry : String × EntryKind) (hentry : isEntryName entry.1 = true) :
    Keeps Calm (copyEntry copyDir src dst entry) :=
  calm_writes.copyEntry (fun src dst _ => h.calm src dst) src (Set.mem_univ dst) entry hentry

/-- **The loop over the entries** collects no error exactly if what is under each name fits. -/
theorem CopiesFit.copyEntries_returns (h : CopiesFit fuel copyDir) (hn : isEntryName n = true)
    (entries : List (String × EntryKind)) (hnodup : (entries.map Prod.fst).Nodup)
    (hslot : Slot m dest R s) (hdir : m.disk.get? (R ++ [s]) = some .dir) (hcalm : Calm m)
    (hleads : Leads m (p.child n) q)
    (hentries : ∀ entry ∈ entries, ∃ e, m.disk.get? (q ++ [entry.1]) = some e ∧ e.kind = entry.2)
    (hapart : Apart {R ++ [s]} m (p.child n)) (hunbroken : Unbroken m (p.child n)) :
    (∃ m', copyEntries copyDir (p.child n) (dest.child s) entries m = (.ok [], m')) ↔
      ∀ name ∈ entries.map Prod.fst, FitsOver fuel name (treeOf m ((p.child n).child name))
        (m.disk.treeAt (R ++ [s] ++ [name])) := by
  induction entries generalizing m with
  | nil => exact ⟨fun _ => nofun, fun _ => ⟨m, rfl⟩⟩
  | cons entry entries ih =>
    obtain ⟨first, kind⟩ := entry
    obtain ⟨e, he, rfl⟩ := hentries _ List.mem_cons_self
    have hfirst : isEntryName first = true := (Disk.parent_dir he).2
    have hslot₁ := hslot.child hdir hfirst
    obtain ⟨hnew, hnodup⟩ := List.nodup_cons.mp hnodup
    have hself : Leads m ((p.child n).descend []) q := by rwa [descend_nil]
    have hseen : entryOf m ((p.child n).child first) ≠ none := by
      have hseen := hunbroken [] q first slot_names hself (by rw [he]; exact nofun)
      rwa [descend_nil] at hseen
    have hreturns := h.copyEntry_returns hslot₁ hcalm hleads he
      ((hapart.child hfirst).mono (covers_below _ _)) (hunbroken.child hfirst) hseen
    -- once the first entry is copied, the rest sees the same
    have hrest : ∀ m₁, copyEntry copyDir (p.child n) (dest.child s) (first, e.kind) m = (.ok (), m₁) →
        ((∃ m', copyEntries copyDir (p.child n) (dest.child s) entries m₁ = (.ok [], m')) ↔
          ∀ name ∈ entries.map Prod.fst, FitsOver fuel name (treeOf m ((p.child n).child name))
            (m.disk.treeAt (R ++ [s] ++ [name]))) := by
      intro m₁ hcopy
      have hexpands := (h.copyEntry_expands (p.child n) hslot₁ e.kind).of_eq (.refl _ m) hcopy
      have hbeside : Expands (Beside (R ++ [s])) m m₁ :=
        hexpands.mono fun r hr hpre => hr ((List.prefix_append _ _).trans hpre)
      have hoff := hbeside.sameOff
      have hleads₁ : Leads m₁ (p.child n) q := by
        have hleads₁ := hapart.leads hn slot_names hoff hself
        rwa [descend_nil] at hleads₁
      have hentries₁ : ∀ entry ∈ entries,
          ∃ e, m₁.disk.get? (q ++ [entry.1]) = some e ∧ e.kind = entry.2 := by
        intro entry hentry
        obtain ⟨e', he', hkind⟩ := hentries entry (List.mem_cons_of_mem _ hentry)
        refine ⟨e', ?_, hkind⟩
        rw [hoff.same _ (hapart.child_off hn slot_names hself (Disk.parent_dir he').2), he']
      rw [ih hnodup (hslot.after hbeside) (hbeside.kept.dir hdir)
        ((h.copyEntry_calm _ _ _ hfirst).of_eq hcalm hcopy) hleads₁ hentries₁ (hapart.congr hoff)
        (hunbroken.congr hn hapart hoff)]
      refine forall₂_congr fun name hname => ?_
      have hne : name ≠ first := by
        rintro rfl
        exact hnew hname
      obtain ⟨entry, hentry, rfl⟩ := List.mem_map.mp hname
      obtain ⟨e', he', -⟩ := hentries entry (List.mem_cons_of_mem _ hentry)
      have hentryName := (Disk.parent_dir he').2
      rw [treeAt_beside hexpands hne, (hapart.child hentryName).treeOf_eq hentryName hoff]
    rw [List.map_cons, List.forall_mem_cons, ← hreturns]
    constructor
    · rintro ⟨m', hok⟩
      obtain ⟨m₁, hcopy, hok⟩ := (copyEntries_cons_nil h.raises).mp hok
      exact ⟨⟨(), m₁, hcopy⟩, (hrest m₁ hcopy).mp ⟨m', hok⟩⟩
    · rintro ⟨⟨u, m₁, hcopy⟩, hfits⟩
      obtain ⟨m', hok⟩ := (hrest m₁ hcopy).mpr hfits
      exact ⟨m', (copyEntries_cons_nil h.raises).mpr ⟨m₁, hcopy, hok⟩⟩

/-- **Copying a directory returns exactly if its tree fits over what is at the slot.** -/
theorem copytree_fits (fuel : Nat) : CopiesFit (C := C) fuel (copytree fuel) := by
  induction fuel with
  | zero =>
    refine ⟨copytree_lays 0, fun _ _ => keeps_raise _, fun _ _ _ _ _ hdir => ?_⟩
    refine iff_of_false (not_returns_raise _ _) fun hfits => ?_
    exact Nat.not_lt_zero _ (hfits.depth [] (by rwa [treeOf_nil]))
  | succ fuel ih =>
    refine ⟨copytree_lays _, fun src dst => calm_writes.copytree _ src (Set.mem_univ dst), ?_⟩
    intro m dest p R n s hslot hcalm hn hapart hunbroken hdir
    obtain ⟨q, hleads⟩ := Leads.of_entryOf hdir
    have hself : Leads m ((p.child n).descend []) q := by rwa [descend_nil]
    -- what the loop finds once the directory is made
    have hloop : ∀ m₁, makedirs recursionLimit (dest.child s) m = (.ok (), m₁) →
        ((∃ m', copyEntries (copytree fuel) (p.child n) (dest.child s) (listing m.disk q) m₁ =
          (.ok [], m')) ↔ ∀ name, FitsOver fuel name ((treeOf m (p.child n)).under name)
            ((m.disk.treeAt (R ++ [s])).under name)) := by
      intro m₁ hmade
      have hexpands := makedirs_slot_expands hslot hmade
      have hoff := hexpands.sameOff
      have hleads₁ : Leads m₁ (p.child n) q := by
        have hleads₁ := hapart.leads hn slot_names hoff hself
        rwa [descend_nil] at hleads₁
      have hcalm₁ : Calm m₁ :=
        (calm_writes.toMakes.makedirs _ (Set.mem_univ _)).of_eq hcalm hmade
      rw [ih.copyEntries_returns hn _ (by rw [listing_map_fst]; exact Disk.children_nodup _ _)
        (hslot.after hexpands) (makedirs_slot hslot hmade) hcalm₁ hleads₁ ?_ (hapart.congr hoff)
        (hunbroken.congr hn hapart hoff), listing_map_fst]
      · simp only [Disk.mem_children, makedirs_treeAt hslot hmade, Disk.treeAt_under]
        refine forall_congr' fun name => ?_
        by_cases hthere : (m.disk.get? (q ++ [name])).isSome
        · obtain ⟨e, he⟩ := Option.isSome_iff_exists.mp hthere
          have hname := (Disk.parent_dir he).2
          rw [treeOf_under _ _ hname, (hapart.child hname).treeOf_eq hname hoff]
          exact ⟨fun hfits => hfits hthere, fun hfits _ => hfits⟩
        · refine iff_of_true (fun hsome => absurd hsome hthere) (fitsOver_absent fun rel => ?_)
          exact treeOf_absent hleads.goesOn (Option.not_isSome_iff_eq_none.mp hthere) rel
      · intro entry hentry
        obtain ⟨e, he, hkind⟩ := of_mem_listing hentry
        refine ⟨e, ?_, hkind⟩
        rw [hoff.same _ (hapart.child_off hn slot_names hself (Disk.parent_dir he).2), he]
    rw [fitsOver_dir (by rwa [treeOf_nil]), Disk.treeAt, List.append_nil,
      ← makedirs_slot_returns hslot hcalm 999]
    constructor
    · rintro ⟨_, m', hok⟩
      obtain ⟨q', m₁, m₂, hleads', hmade, hcopied, -⟩ := copytree_eq_ok.mp hok
      cases hleads.found.symm.trans hleads'.found
      exact ⟨⟨(), m₁, hmade⟩, (hloop m₁ hmade).mp ⟨m₂, hcopied⟩⟩
    · rintro ⟨⟨_, m₁, hmade⟩, hfits⟩
      obtain ⟨m₂, hcopied⟩ := (hloop m₁ hmade).mpr hfits
      have hthrough := child_through dest s
      have hexpands := makedirs_slot_expands hslot hmade
      have hslot₁ := hslot.after hexpands
      have hcalm₁ : Calm m₁ :=
        (calm_writes.toMakes.makedirs _ (Set.mem_univ _)).of_eq hcalm hmade
      have hcalm₂ : Calm m₂ := (calm_writes.copyEntries
        (fun src _ hdst => calm_writes.copytree fuel src hdst) _ (Set.mem_univ _) _
        fun _ hentry => listing_names hentry).of_eq hcalm₁ hcopied
      have hexpands₂ : Expands (Beside (R ++ [s])) m₁ m₂ := (hslot₁.writes.copyEntries
        (fun src _ hdst => hslot₁.writes.copytree fuel src hdst) _ hthrough _
        fun _ hentry => listing_names hentry).of_eq (.refl _ m₁) hcopied
      have hsrc : exists? m₂ (p.child n) = true := by
        rw [hapart.self.exists_eq (hexpands.trans hexpands₂).sameOff]
        exact exists_of_entryOf hdir
      have hdst : exists? m₂ (dest.child s) = true :=
        (hslot₁.after hexpands₂).exists_child (hexpands₂.kept.dir (makedirs_slot hslot hmade))
      obtain ⟨_, m', hstat⟩ := copystat_returns hcalm₂ hsrc hdst
      exact ⟨(), m', copytree_eq_ok.mpr ⟨q, m₁, m₂, hleads, hmade, hcopied, hstat⟩⟩

end Copying

end ClawEngine.Posix
