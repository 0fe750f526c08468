import ClawEngine.Posix.Trees

/-!
# What copying leaves

`shutil.copytree` to an entry of a directory, without links at or below the entry. When it returns,
the tree it was to copy is laid over what was there: `copytree_laid`. The source is seen through
links, and is apart from the entry: no path of it leads there.
-/

set_option autoImplicit false

namespace ClawEngine.Posix

open ClawEngine.Core ClawEngine.Core.Act

variable {C : Type}

/-! ## A source apart from what is written -/

/-- No path of the tree leads to what is at or below the places of `H`. -/
def Apart (H : Set Location) (m : Machine C) (p : PosixPath) : Prop :=
  ∀ rel : List String, (∀ name ∈ rel, isEntryName name = true) → ClearOf H m (p.descend rel)

section Apart

variable {H H' : Set Location} {m m' : Machine C} {p : PosixPath} {name : String}

theorem Apart.child (h : Apart H m p) (hname : isEntryName name = true) :
    Apart H m (p.child name) := by
  intro rel hrel
  rw [child_descend]
  refine h _ fun n hn => ?_
  rcases List.mem_cons.mp hn with rfl | hn
  · exact hname
  · exact hrel n hn

theorem Apart.self (h : Apart H m p) : ClearOf H m p := by
  have hself := h [] nofun
  rwa [descend_nil] at hself

theorem Apart.mono (h : Apart H m p) (hH : Covers H H') : Apart H' m p :=
  fun rel hrel m' hm' => h rel hrel m' (hm'.mono hH)

theorem Apart.congr (h : Apart H m p) (hm : SameOff H m m') : Apart H m' p :=
  fun rel hrel => (h rel hrel).congr hm

/-- What such a path sees stays, whatever happens in the places. -/
theorem Apart.treeOf_eq (h : Apart H m (p.child name)) (hname : isEntryName name = true)
    (hm : SameOff H m m') : treeOf m' (p.child name) = treeOf m (p.child name) := by
  funext rel
  unfold treeOf
  split
  next hrel =>
    have hrel := List.all_eq_true.mp hrel
    have hclear := h rel hrel
    rcases List.eq_nil_or_concat rel with rfl | ⟨init, last, rfl⟩
    · rw [descend_nil]
      exact h.self.entryOf_eq hname hm
    · rw [List.concat_eq_append] at hclear hrel ⊢
      rw [← descend_child] at hclear ⊢
      exact hclear.entryOf_eq (hrel last (List.mem_append_right _ List.mem_cons_self)) hm
  next => rfl

/-- On a disk without links, what is below a directory is apart from what is neither above nor
below it. -/
theorem apart_of_noLinks {S R : Location} (hS : ∀ n ∈ S, isEntryName n = true)
    (hlinks : ∀ q target, m.disk.get? q ≠ some (.link target))
    (hapart : ∀ q, q <+: S ∨ S <+: q → ¬ R <+: q) (hname : isEntryName name = true) :
    Apart {R} m (PosixPath.child ⟨true, S⟩ name) := by
  intro rel hrel m' hm
  have hnames : ∀ n ∈ S ++ [name] ++ rel, isEntryName n = true := by
    intro n hn
    rcases List.mem_append.mp hn with hn | hn
    · rcases List.mem_append.mp hn with hn | hn
      · exact hS n hn
      · rwa [List.mem_singleton.mp hn]
    · exact hrel n hn
  refine lookup_agree hnames (fun q _ => hlinks q) fun q hq => hm.same q fun place hplace => ?_
  rw [Set.mem_singleton_iff.mp hplace]
  have hq : q <+: S ++ [name] ++ rel := hq
  rw [List.append_assoc] at hq
  exact hapart q (List.prefix_or_prefix_of_prefix hq (List.prefix_append S _))

end Apart

/-! ## Making a directory at a slot -/

section Making

variable {m m' : Machine C} {dest : PosixPath} {R : Location} {s : String}

/-- Through a slot, nothing changes beside it. -/
theorem Expands.sameOff {T : Location} (h : Expands (Beside T) m m') : SameOff {T} m m' :=
  ⟨h.workdir, fun q hq => h.same q (hq T rfl)⟩

theorem SameOutside.sameOff (h : SameOutside R m m') : SameOff {R} m m' :=
  ⟨h.1, fun q hq => h.2 q fun hbelow => hq R rfl hbelow.1⟩

theorem Expands.sameOutside (h : Expands (Outside R) m m') : SameOutside R m m' :=
  ⟨h.workdir, h.same⟩

/-- An entry of a directory in a slot is a slot. -/
theorem Slot.child {name : String} (h : Slot m dest R s)
    (hdir : m.disk.get? (R ++ [s]) = some .dir) (hname : isEntryName name = true) :
    Slot m (dest.child s) (R ++ [s]) name where
  leads := ⟨hdir, lookup_located_below h.leads (List.cons_ne_nil s []) hdir rfl⟩
  name := hname
  noLinks := fun p hp => h.noLinks p ((List.prefix_append _ _).trans hp)

/-- `mkdir` that returns, at a slot. -/
theorem mkdir_slot_get (h : Slot m dest R s) (hok : mkdir (dest.child s) m = (.ok (), m'))
    (q : Location) : m'.disk.get? q = if q = R ++ [s] then some .dir else m.disk.get? q := by
  obtain ⟨p, hp, rfl⟩ := mkdir_eq_ok hok
  obtain ⟨rfl, hcan⟩ := h.canPut hp
  exact Disk.get?_put hcan .dir q

theorem mkdirExistOk_slot_get (h : Slot m dest R s)
    (hok : mkdirExistOk (dest.child s) m = (.ok (), m')) (q : Location) :
    m'.disk.get? q = if q = R ++ [s] then some .dir else m.disk.get? q := by
  obtain ⟨outcome, m₁, hattempt, hrest⟩ := bind_eq_ok.mp hok
  have hmade := attempt_eq_ok.mp hattempt
  cases outcome with
  | ok u =>
    cases hrest
    exact mkdir_slot_get h hmade q
  | error e =>
    obtain rfl := mkdir_eq_error hmade
    obtain ⟨isDir, m₂, hread, hend⟩ := bind_eq_ok.mp hrest
    cases hread
    split at hend
    next hdir =>
      cases hend
      split
      next heq => rw [heq, Machine.next, isdir_slot h hdir]
      next => rfl
    · cases hend

/-- **`makedirs` at a slot** puts the directory there, if there was none, and nothing else. -/
theorem makedirs_slot_get (h : Slot m dest R s) {fuel : Nat}
    (hok : makedirs fuel (dest.child s) m = (.ok (), m')) (q : Location) :
    m'.disk.get? q = if q = R ++ [s] then some .dir else m.disk.get? q := by
  cases fuel with
  | zero => cases hok
  | succ fuel =>
    obtain ⟨lacks, m₁, hread, hrest⟩ := bind_eq_ok.mp hok
    cases hread
    split at hrest
    next hl => exact absurd (h.lacksHead.symm.trans hl) Bool.false_ne_true
    next => exact mkdirExistOk_slot_get h hrest q

/-- What is at or below another entry is as it was. -/
theorem treeAt_beside {T : Location} {name other : String} (h : Expands (Beside (T ++ [name])) m m')
    (hne : other ≠ name) : m'.disk.treeAt (T ++ [other]) = m.disk.treeAt (T ++ [other]) := by
  funext rel
  refine h.same _ fun hpre => hne ?_
  exact entry_prefix_inj (List.prefix_append _ rel) hpre

/-- Making the directory changes nothing under the names in it. -/
theorem makedirs_treeAt (h : Slot m dest R s) {fuel : Nat}
    (hmade : makedirs fuel (dest.child s) m = (.ok (), m')) (name : String) :
    m'.disk.treeAt (R ++ [s] ++ [name]) = m.disk.treeAt (R ++ [s] ++ [name]) := by
  funext rel
  refine (makedirs_slot_get h hmade _).trans (if_neg fun heq => ?_)
  rw [List.append_assoc] at heq
  exact List.append_ne_nil_of_left_ne_nil (List.cons_ne_nil name []) rel
    (List.append_right_eq_self.mp heq)

theorem makedirs_slot_expands (h : Slot m dest R s) {fuel : Nat}
    (hmade : makedirs fuel (dest.child s) m = (.ok (), m')) : Expands (Beside (R ++ [s])) m m' :=
  (h.writes.toMakes.makedirs _ (child_through dest s)).of_eq (.refl _ m) hmade

end Making

/-! ## Copying a file to a slot -/

section Files

variable {m m' : Machine C} {dest src : PosixPath} {R : Location} {s name : String}

/-- `open` for writing that returns, at a slot: an empty file is there. -/
theorem openWrite_slot_get [Inhabited C] (h : Slot m dest R s) {q : Location}
    (hok : openWrite (dest.child s) m = (.ok q, m')) :
    q = R ++ [s] ∧ m.disk.get? (R ++ [s]) ≠ some .dir ∧ m'.workdir = m.workdir ∧
      ∀ p, m'.disk.get? p = if p = R ++ [s] then some (.file default) else m.disk.get? p := by
  obtain ⟨rfl, hfile⟩ := openWrite_slot h hok
  have hexpands := (h.writes.toFills.openWrite (child_through dest s)).of_eq (.refl _ m) hok
  obtain ⟨_, m₁, hcheck, hopen⟩ := bind_eq_ok.mp hok
  have hsame : SameDisk m m₁ := (SameDisk.ticks m).checkFault.of_eq ⟨rfl, rfl⟩ hcheck
  have hnodir : m.disk.get? (R ++ [s]) ≠ some .dir := by
    intro hdir
    have hkept := hexpands.kept.dir hdir
    rw [hfile] at hkept
    cases hkept
  refine ⟨rfl, hnodir, hexpands.workdir, fun p => ?_⟩
  split
  next heq => rw [heq, hfile]
  next hne =>
    split at hopen
    · split at hopen
      · cases hopen
      · cases hopen
        rw [← hsame.1]
        exact Disk.get?_put_of_ne hne _
    · cases hopen
      rw [← hsame.1]
      exact Disk.get?_put_of_ne hne _
    · cases hopen

/-- What is open for reading, when it is: a file. -/
theorem openRead_eq_ok {q : Location} (hname : isEntryName name = true)
    (hok : openRead (src.child name) m = (.ok q, m')) :
    SameDisk m m' ∧ lookup m true (src.child name) = .found q ∧
      ∃ content, m.disk.get? q = some (.file content) := by
  obtain ⟨_, m₁, hcheck, hopen⟩ := bind_eq_ok.mp hok
  have hsame : SameDisk m m₁ := (SameDisk.ticks m).checkFault.of_eq ⟨rfl, rfl⟩ hcheck
  obtain ⟨hanswer, rfl⟩ := readE_eq_ok.mp hopen
  have hlook : lookup m₁ true (src.child name) = lookup m true (src.child name) := by
    rw [lookup, lookup, hsame.1, hsame.2]
  rw [hlook, hsame.1] at hanswer
  split at hanswer
  next r hr =>
    split at hanswer
    · cases hanswer
    next hnodir =>
      cases hanswer
      obtain ⟨e, he, hlink⟩ := lookup_entry hname hr
      refine ⟨hsame, hr, ?_⟩
      cases e with
      | dir => exact absurd (Disk.isDirAt_iff.mpr he) hnodir
      | file content => exact ⟨content, he⟩
      | link target => cases hlink
  · cases hanswer
  · cases hanswer

theorem readAt_eq_ok {q : Location} {content : C} (hok : readAt q m = (.ok content, m')) :
    SameDisk m m' ∧ m.disk.get? q = some (.file content) := by
  obtain ⟨_, m₁, hcheck, hread⟩ := bind_eq_ok.mp hok
  have hsame : SameDisk m m₁ := (SameDisk.ticks m).checkFault.of_eq ⟨rfl, rfl⟩ hcheck
  obtain ⟨hanswer, rfl⟩ := readE_eq_ok.mp hread
  refine ⟨hsame, ?_⟩
  rw [hsame.1] at hanswer
  split at hanswer
  next hentry =>
    cases hanswer
    exact hentry
  · cases hanswer

theorem writeAt_eq_ok {q : Location} {content before : C}
    (hfile : m.disk.get? q = some (.file before)) (hok : writeAt q content m = (.ok (), m'))
    (p : Location) :
    m'.disk.get? p = if p = q then some (.file content) else m.disk.get? p := by
  unfold writeAt at hok
  split at hok
  · cases hok
  · obtain ⟨-, rfl⟩ := Prod.mk.inj hok
    exact Disk.get?_put (Disk.canPut_of_file hfile) _ p

/-- **`copyfile` to a slot**, from a path that does not lead there: the file is there, with the
content that the path sees. -/
theorem copyfile_slot [Inhabited C] (h : Slot m dest R s) (hname : isEntryName name = true)
    (hclear : ClearOf {R ++ [s]} m (src.child name))
    (hok : copyfile (src.child name) (dest.child s) m = (.ok (), m')) :
    ∃ content, entryOf m (src.child name) = some (.file content) ∧
      m.disk.get? (R ++ [s]) ≠ some .dir ∧
      ∀ p, m'.disk.get? p = if p = R ++ [s] then some (.file content) else m.disk.get? p := by
  obtain ⟨same, m₁, hread, hok⟩ := bind_eq_ok.mp hok
  cases hread
  split at hok
  · cases hok
  have hok := mapError_eq_ok.mp hok
  obtain ⟨read, m₁, hopen, hok⟩ := bind_eq_ok.mp hok
  obtain ⟨hsame, hfound, content, hfile⟩ := openRead_eq_ok hname hopen
  obtain ⟨target, m₂, hopen', hok⟩ := bind_eq_ok.mp hok
  have hslot := h.after (Expands.of_disk hsame.1 hsame.2)
  obtain ⟨rfl, hnodir, -, hopened⟩ := openWrite_slot_get hslot hopen'
  obtain ⟨content', m₃, hread, hwrite⟩ := bind_eq_ok.mp hok
  obtain ⟨hsame', hcontent⟩ := readAt_eq_ok hread
  -- what is read is not what was opened for writing
  have hoff : read ≠ R ++ [s] := by
    have hmem := hclear.found_mem hname hfound
    rintro rfl
    exact hmem _ rfl List.prefix_rfl
  rw [hopened, if_neg hoff, hsame.1, hfile] at hcontent
  cases hcontent
  have hempty : m₃.disk.get? (R ++ [s]) = some (.file default) := by
    rw [hsame'.1, hopened, if_pos rfl]
  refine ⟨content, ?_, ?_, fun p => ?_⟩
  · rw [entryOf, hfound]
    exact hfile
  · rwa [hsame.1] at hnodir
  · rw [writeAt_eq_ok hempty hwrite, hsame'.1, hopened, hsame.1]
    split <;> rfl

/-- **`copy2` to a slot of the same name**: the file is laid over what was there. -/
theorem copy2_slot [Inhabited C] (h : Slot m dest R s) (hapart : Apart {R ++ [s]} m (src.child s))
    (hok : copy2 (src.child s) (dest.child s) m = (.ok (), m')) :
    LaidOver s (treeOf m (src.child s)) (m.disk.treeAt (R ++ [s])) (m'.disk.treeAt (R ++ [s])) := by
  obtain ⟨target, m₁, hread, hok⟩ := bind_eq_ok.mp hok
  obtain ⟨htarget, rfl⟩ := read_eq_ok.mp hread
  obtain ⟨_, m₁, hcopy, hstat⟩ := bind_eq_ok.mp hok
  have hsame : SameDisk m₁ m' :=
    ((SameDisk.ticks m₁).copystat _ _).of_eq ⟨rfl, rfl⟩ (mapError_eq_ok.mp hstat)
  have hself : ∀ content, entryOf m (src.child s) = some (.file content) →
      treeOf m (src.child s) [] = some (.file content) := fun content hfile => by
    rw [treeOf_nil, hfile]
  have hnil : ∀ rel : List String, R ++ [s] ++ rel = R ++ [s] ↔ rel = [] := fun rel =>
    List.append_right_eq_self
  subst htarget
  split at hcopy
  next hisdir =>
    have hdir := isdir_slot h hisdir
    rw [PosixPath.basename_child] at hcopy
    obtain ⟨content, hfile, -, hget⟩ :=
      copyfile_slot (h.child hdir h.name) h.name (hapart.mono (covers_below _ [s])).self hcopy
    refine .of_file_inside (hself content hfile) (treeOf_below_file hfile) ?_ fun rel => ?_
    · rw [Disk.treeAt, List.append_nil, hdir]
    · rw [Disk.treeAt, Disk.treeAt, hsame.1, hget]
      simp only [List.append_cancel_left_eq]
  next hisdir =>
    obtain ⟨content, hfile, hnodir, hget⟩ := copyfile_slot h h.name hapart.self hcopy
    refine .of_file (hself content hfile) (treeOf_below_file hfile) ?_ fun rel => ?_
    · rwa [Disk.treeAt, List.append_nil]
    · rw [Disk.treeAt, Disk.treeAt, hsame.1, hget]
      simp only [hnil]

end Files

/-! ## Copying a directory to a slot -/

section Errors

variable {copyDir : PosixPath → PosixPath → Fs C Unit}

/-- An exception that the loop over the entries does not lose: it is raised, or noted. -/
def FsError.Told (e : FsError) : Prop := ∀ src dst, e.faults src dst ≠ some []

theorem FsError.told_os (e : OsError) : (FsError.os e).Told := fun _ _ h => by cases h

theorem copy2_raises [Inhabited C] (src dst : PosixPath) :
    Raises FsError.Told (copy2 src dst : Fs C Unit) := by
  refine (raises_read _).bind fun target => ?_
  refine Raises.bind ?_ fun _ => raises_mapError FsError.told_os
  refine (raises_read _).bind fun same => ?_
  split
  · exact raises_raise fun _ _ h => by cases h
  · exact raises_mapError FsError.told_os

theorem copyEntry_raises [Inhabited C] (hcopy : ∀ src dst, Raises FsError.Told (copyDir src dst))
    (src dst : PosixPath) (entry : String × EntryKind) :
    Raises FsError.Told (copyEntry copyDir src dst entry) := by
  unfold copyEntry
  split
  · exact hcopy _ _
  · exact copy2_raises _ _
  · refine (raises_mapError FsError.told_os).bind fun _ => ?_
    refine (raises_mapError FsError.told_os).bind fun isDir => ?_
    split
    · exact hcopy _ _
    · exact copy2_raises _ _

theorem mkdirExistOk_raises (p : PosixPath) : Raises FsError.Told (mkdirExistOk p : Fs C Unit) := by
  refine (raises_attempt _).bind fun outcome => ?_
  split
  · exact raises_pure _
  · refine (raises_read _).bind fun isDir => ?_
    split
    · exact raises_pure _
    · exact raises_raise (FsError.told_os _)

theorem makedirs_raises (fuel : Nat) (p : PosixPath) :
    Raises FsError.Told (makedirs fuel p : Fs C Unit) := by
  induction fuel generalizing p with
  | zero => exact raises_raise fun _ _ h => by cases h
  | succ fuel ih =>
    refine (raises_read _).bind fun lacks => ?_
    split
    · refine Raises.bind ?_ fun _ => ?_
      · refine (ih p.head).attempt_bind fun answer hanswer => ?_
        split
        · exact raises_pure _
        · exact raises_pure _
        next e hother => exact raises_raise (hanswer e rfl)
      · split
        · exact raises_pure _
        · exact mkdirExistOk_raises p
    · exact mkdirExistOk_raises p

theorem copyEntries_raises [Inhabited C] (hcopy : ∀ src dst, Raises FsError.Told (copyDir src dst))
    (src dst : PosixPath) (entries : List (String × EntryKind)) :
    Raises FsError.Told (copyEntries copyDir src dst entries) := by
  induction entries with
  | nil => exact raises_pure _
  | cons entry entries ih =>
    refine (copyEntry_raises hcopy src dst entry).attempt_bind fun answer hanswer => ?_
    split
    · exact ih
    next e =>
      split
      · exact raises_raise (hanswer e rfl)
      · exact ih.bind fun _ => raises_pure _

/-- What `copytree` raises is told: its list of errors is not empty. -/
theorem copytree_raises [Inhabited C] (fuel : Nat) (src dst : PosixPath) :
    Raises FsError.Told (copytree fuel src dst : Fs C Unit) := by
  induction fuel generalizing src dst with
  | zero => exact raises_raise fun _ _ h => by cases h
  | succ fuel ih =>
    refine (raises_mapError FsError.told_os).bind fun entries => ?_
    refine (makedirs_raises _ _).bind fun _ => ?_
    refine (copyEntries_raises ih _ _ _).bind fun errors => ?_
    refine Raises.bind ?_ fun errors => ?_
    · refine (raises_attempt _).bind fun answer => ?_
      split
      · exact raises_pure _
      · exact raises_pure _
    · split
      · exact raises_pure _
      next hsome =>
        refine raises_raise fun _ _ h => hsome ?_
        rw [Option.some.inj h]
        rfl

/-- The loop collects no error exactly if the first entry is copied and the rest collects none. -/
theorem copyEntries_cons_nil [Inhabited C]
    (hcopy : ∀ src dst, Raises FsError.Told (copyDir src dst)) {src dst : PosixPath}
    {entry : String × EntryKind} {entries : List (String × EntryKind)} {m m' : Machine C} :
    copyEntries copyDir src dst (entry :: entries) m = (.ok [], m') ↔
      ∃ m₁, copyEntry copyDir src dst entry m = (.ok (), m₁) ∧
        copyEntries copyDir src dst entries m₁ = (.ok [], m') := by
  constructor
  · intro hok
    obtain ⟨answer, m₁, hattempt, hrest⟩ := bind_eq_ok.mp hok
    have hentry := attempt_eq_ok.mp hattempt
    cases answer with
    | ok u => exact ⟨m₁, hentry, hrest⟩
    | error e =>
      -- an exception would have been raised again, or noted
      exfalso
      have hfaults := copyEntry_raises hcopy src dst entry m e m₁ hentry (src.child entry.1)
        (dst.child entry.1)
      dsimp only at hrest
      generalize e.faults (src.child entry.1) (dst.child entry.1) = noted at hrest hfaults
      cases noted with
      | none => cases hrest
      | some errors =>
        obtain ⟨rest, m₂, -, hend⟩ := bind_eq_ok.mp hrest
        obtain ⟨hnil, -⟩ := Prod.mk.inj hend
        rw [(List.append_eq_nil_iff.mp (Except.ok.inj hnil)).1] at hfaults
        exact hfaults rfl
  · rintro ⟨m₁, hentry, hrest⟩
    exact bind_eq_ok.mpr ⟨.ok (), m₁, attempt_eq_ok.mpr hentry, hrest⟩

end Errors

section Listing

variable {m m' : Machine C} {p : PosixPath}

theorem Disk.children_nodup (d : Disk C) (q : Location) : (d.children q).Nodup := by
  refine List.Nodup.filterMap ?_ d.entries.nodup_keys
  intro k k' name hk hk'
  rw [Option.mem_def] at hk hk'
  split at hk
  case isFalse => cases hk
  case isTrue hdrop =>
    split at hk'
    case isFalse => cases hk'
    case isTrue hdrop' =>
      obtain ⟨init, rfl⟩ := List.getLast?_eq_some_iff.mp hk
      obtain ⟨init', rfl⟩ := List.getLast?_eq_some_iff.mp hk'
      rw [List.dropLast_concat] at hdrop hdrop'
      rw [hdrop.2, hdrop'.2]

/-- The names of a listing are those of the entries. -/
theorem listing_map_fst (d : Disk C) (q : Location) :
    (listing d q).map Prod.fst = d.children q := by
  unfold listing
  have hall : ∀ name ∈ d.children q, (d.get? (q ++ [name])).isSome := fun name hname =>
    Disk.mem_children.mp hname
  generalize d.children q = names at hall
  induction names with
  | nil => rfl
  | cons name names ih =>
    obtain ⟨e, he⟩ := Option.isSome_iff_exists.mp (hall name List.mem_cons_self)
    rw [List.filterMap_cons, he]
    exact congrArg (name :: ·) (ih fun n hn => hall n (List.mem_cons_of_mem name hn))

/-- `scandir` that returns, of a path that leads to a directory. -/
theorem scandir_eq_ok {entries : List (String × EntryKind)} :
    scandir p m = (.ok entries, m') ↔
      m' = m ∧ ∃ q, Leads m p q ∧ entries = listing m.disk q := by
  rw [scandir, readE_eq_ok]
  constructor
  · rintro ⟨hanswer, rfl⟩
    refine ⟨rfl, ?_⟩
    split at hanswer
    next q hq =>
      split at hanswer
      next hdir =>
        cases hanswer
        exact ⟨q, ⟨Disk.isDirAt_iff.mp hdir, hq⟩, rfl⟩
      · cases hanswer
    · cases hanswer
    · cases hanswer
  · rintro ⟨rfl, q, hleads, rfl⟩
    rw [hleads.found]
    exact ⟨if_pos (Disk.isDirAt_iff.mpr hleads.dir), rfl⟩

/-- No error is noted at the end of a directory exactly if none was before, and times and
permissions were copied. -/
theorem copystatOf_nil {src dst : PosixPath} {errors : List CopyFault} :
    copystatOf src dst errors m = (.ok [], m') ↔
      errors = [] ∧ copystat src dst m = (.ok (), m') := by
  constructor
  · intro hok
    obtain ⟨answer, m₁, hattempt, hend⟩ := bind_eq_ok.mp hok
    have hstat := attempt_eq_ok.mp hattempt
    cases answer with
    | ok u =>
      obtain ⟨hnil, rfl⟩ := Prod.mk.inj hend
      exact ⟨Except.ok.inj hnil, hstat⟩
    | error e =>
      obtain ⟨hnil, -⟩ := Prod.mk.inj hend
      exact absurd (Except.ok.inj hnil) (List.concat_ne_nil _ errors)
  · rintro ⟨rfl, hstat⟩
    exact bind_eq_ok.mpr ⟨.ok (), m', attempt_eq_ok.mpr hstat, rfl⟩

/-- **When `copytree` returns**: the source is a directory, the destination is made, all its entries
are copied, and at last its times and permissions. -/
theorem copytree_eq_ok [Inhabited C] {fuel : Nat} {src dst : PosixPath} :
    copytree (fuel + 1) src dst m = (.ok (), m') ↔ ∃ q m₁ m₂, Leads m src q ∧
      makedirs recursionLimit dst m = (.ok (), m₁) ∧
      copyEntries (copytree fuel) src dst (listing m.disk q) m₁ = (.ok [], m₂) ∧
      copystat src dst m₂ = (.ok (), m') := by
  constructor
  · intro hok
    obtain ⟨entries, m₀, hscan, hok⟩ := bind_eq_ok.mp hok
    obtain ⟨rfl, q, hleads, rfl⟩ := scandir_eq_ok.mp (mapError_eq_ok.mp hscan)
    obtain ⟨_, m₁, hmade, hok⟩ := bind_eq_ok.mp hok
    obtain ⟨errors, m₂, hcopied, hok⟩ := bind_eq_ok.mp hok
    obtain ⟨errors', m₃, hstat, hend⟩ := bind_eq_ok.mp hok
    split at hend
    next hnone =>
      cases hend
      rw [List.isEmpty_iff] at hnone
      subst hnone
      obtain ⟨rfl, hlast⟩ := copystatOf_nil.mp hstat
      exact ⟨q, m₁, m₂, hleads, hmade, hcopied, hlast⟩
    · cases hend
  · rintro ⟨q, m₁, m₂, hleads, hmade, hcopied, hstat⟩
    refine bind_eq_ok.mpr ⟨_, m, mapError_eq_ok.mpr (scandir_eq_ok.mpr ⟨rfl, q, hleads, rfl⟩), ?_⟩
    refine bind_eq_ok.mpr ⟨(), m₁, hmade, bind_eq_ok.mpr ⟨[], m₂, hcopied, ?_⟩⟩
    exact bind_eq_ok.mpr ⟨[], m', copystatOf_nil.mpr ⟨rfl, hstat⟩, rfl⟩

end Listing

section Directories

variable [Inhabited C] {m m' : Machine C} {dest src : PosixPath} {R : Location} {s : String}
  {copyDir : PosixPath → PosixPath → Fs C Unit}

/-- `copyDir` lays what it copies over what is at a slot, and leaves the rest alone. -/
structure Lays (copyDir : PosixPath → PosixPath → Fs C Unit) : Prop where
  laid : ∀ {m m' : Machine C} {dest src : PosixPath} {R : Location} {s : String},
    Slot m dest R s → Apart {R ++ [s]} m src → copyDir src (dest.child s) m = (.ok (), m') →
    LaidOver s (treeOf m src) (m.disk.treeAt (R ++ [s])) (m'.disk.treeAt (R ++ [s]))
  expands : ∀ {m : Machine C} {dest : PosixPath} {R : Location} {s : String} (src dst : PosixPath),
    Slot m dest R s → dst ∈ Through dest s →
    Keeps (Expands (Beside (R ++ [s])) m) (copyDir src dst)
  raises : ∀ src dst, Raises FsError.Told (copyDir src dst)

/-- The copy of one entry that returned. -/
theorem Lays.copyEntry (h : Lays copyDir) (hslot : Slot m dest R s)
    (hapart : Apart {R ++ [s]} m (src.child s)) (kind : EntryKind)
    (hok : copyEntry copyDir src dest (s, kind) m = (.ok (), m')) :
    LaidOver s (treeOf m (src.child s)) (m.disk.treeAt (R ++ [s])) (m'.disk.treeAt (R ++ [s])) := by
  cases kind with
  | dir => exact h.laid hslot hapart hok
  | file => exact copy2_slot hslot hapart hok
  | link =>
    obtain ⟨_, m₁, hread, hok⟩ := bind_eq_ok.mp hok
    obtain ⟨-, rfl⟩ := readE_eq_ok.mp (mapError_eq_ok.mp hread)
    obtain ⟨isDir, m₁, hread, hok⟩ := bind_eq_ok.mp hok
    obtain ⟨-, rfl⟩ := readE_eq_ok.mp (mapError_eq_ok.mp hread)
    split at hok
    · exact h.laid hslot hapart hok
    · exact copy2_slot hslot hapart hok

theorem Lays.copyEntry_expands (h : Lays copyDir) (src : PosixPath) (hslot : Slot m dest R s)
    (kind : EntryKind) :
    Keeps (Expands (Beside (R ++ [s])) m) (Posix.copyEntry copyDir src dest (s, kind)) := by
  have hdst := child_through dest s
  have hdir := h.expands (src.child s) (dest.child s) hslot hdst
  have hfile : Keeps (Expands (Beside (R ++ [s])) m) (copy2 (src.child s) (dest.child s)) :=
    hslot.writes.copy2 _ (by rw [PosixPath.basename_child]; exact hslot.name) hdst
  cases kind with
  | dir => exact hdir
  | file => exact hfile
  | link =>
    refine ((keeps_readE _).mapError _).bind fun _ => ?_
    refine ((keeps_readE _).mapError _).bind fun isDir => ?_
    split
    · exact hdir
    · exact hfile

/-- **The loop over the entries**, when it collects no error: what is under each name of the list
is laid over what was there, and what is under another is as it was. -/
theorem Lays.copyEntries (h : Lays copyDir) (entries : List (String × EntryKind))
    (hnames : ∀ entry ∈ entries, isEntryName entry.1 = true)
    (hnodup : (entries.map Prod.fst).Nodup) (hslot : Slot m dest R s)
    (hdir : m.disk.get? (R ++ [s]) = some .dir) (hapart : Apart {R ++ [s]} m src)
    (hok : copyEntries copyDir src (dest.child s) entries m = (.ok [], m')) (name : String) :
    (name ∈ entries.map Prod.fst → LaidOver name (treeOf m (src.child name))
      (m.disk.treeAt (R ++ [s] ++ [name])) (m'.disk.treeAt (R ++ [s] ++ [name]))) ∧
    (name ∉ entries.map Prod.fst →
      m'.disk.treeAt (R ++ [s] ++ [name]) = m.disk.treeAt (R ++ [s] ++ [name])) := by
  induction entries generalizing m with
  | nil =>
    cases hok
    exact ⟨nofun, fun _ => rfl⟩
  | cons entry entries ih =>
    obtain ⟨first, kind⟩ := entry
    have hfirst : isEntryName first = true := hnames _ List.mem_cons_self
    have hslot₁ := hslot.child hdir hfirst
    obtain ⟨hnew, hnodup⟩ := List.nodup_cons.mp hnodup
    obtain ⟨m₁, hcopy, hrest⟩ := (copyEntries_cons_nil h.raises).mp hok
    have hexpands := (h.copyEntry_expands src hslot₁ kind).of_eq (.refl _ m) hcopy
    have hbeside : Expands (Beside (R ++ [s])) m m₁ :=
      hexpands.mono fun p hp hpre => hp ((List.prefix_append _ _).trans hpre)
    have hlaid := h.copyEntry hslot₁ ((hapart.child hfirst).mono (covers_below _ _)) kind hcopy
    obtain ⟨hin, hout⟩ := ih (fun e he => hnames e (List.mem_cons_of_mem _ he)) hnodup
      (hslot.after hbeside) (hbeside.kept.dir hdir) (hapart.congr hbeside.sameOff) hrest
    rw [List.map_cons, List.mem_cons]
    by_cases hname : name = first
    · subst hname
      refine ⟨fun _ => ?_, fun hnot => absurd (.inl rfl) hnot⟩
      rwa [hout hnew]
    · have hsame := treeAt_beside hexpands hname
      rw [hsame] at hin hout
      refine ⟨fun hmem => ?_, fun hnot => hout fun hmem => hnot (.inr hmem)⟩
      have hmem := hmem.resolve_left hname
      obtain ⟨e, he, rfl⟩ := List.mem_map.mp hmem
      have hname := hnames e (List.mem_cons_of_mem _ he)
      rw [← (hapart.child hname).treeOf_eq hname hbeside.sameOff]
      exact hin hmem

/-- **Copying a directory lays its tree over what is at the slot**, when it returns. -/
theorem copytree_lays (fuel : Nat) : Lays (C := C) (copytree fuel) := by
  induction fuel with
  | zero =>
    refine ⟨fun _ _ hok => ?_, fun _ _ _ _ => keeps_raise _, copytree_raises 0⟩
    cases hok
  | succ fuel ih =>
    refine ⟨fun hslot hapart hok => ?_, fun src dst hslot hdst => hslot.writes.copytree _ src hdst,
      copytree_raises _⟩
    rename_i m m' dest src R s
    obtain ⟨-, hdirAfter⟩ := copytree_slot hslot hok
    obtain ⟨q, m₁, m₂, hleads, hmade, hcopied, hstat⟩ := copytree_eq_ok.mp hok
    have hexpands := makedirs_slot_expands hslot hmade
    have hsame : SameDisk m₂ m' := ((SameDisk.ticks m₂).copystat _ _).of_eq ⟨rfl, rfl⟩ hstat
    have hloop := ih.copyEntries _ (fun _ hentry => listing_names hentry)
      (by rw [listing_map_fst]; exact Disk.children_nodup _ _) (hslot.after hexpands)
      (makedirs_slot hslot hmade) (hapart.congr hexpands.sameOff) hcopied
    simp only [listing_map_fst, Disk.mem_children] at hloop
    refine .of_children ?_ ?_ fun name => ?_
    · rw [treeOf_nil, entryOf, hleads.found]
      exact hleads.dir
    · rw [Disk.treeAt, List.append_nil]
      exact hdirAfter
    · obtain ⟨hin, hout⟩ := hloop name
      rw [makedirs_treeAt hslot hmade, ← hsame.1] at hin hout
      rw [Disk.treeAt_under, Disk.treeAt_under]
      by_cases hthere : (m.disk.get? (q ++ [name])).isSome
      · obtain ⟨e, he⟩ := Option.isSome_iff_exists.mp hthere
        have hname := (Disk.parent_dir he).2
        rw [treeOf_under _ _ hname, ← (hapart.child hname).treeOf_eq hname hexpands.sameOff]
        exact hin hthere
      · refine .absent (fun rel => ?_) (hout hthere)
        exact treeOf_absent hleads.goesOn (Option.not_isSome_iff_eq_none.mp hthere) rel

end Directories

end ClawEngine.Posix
