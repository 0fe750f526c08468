import ClawEngine.Posix.Returns

/-!
# What an interrupted copy leaves

`shutil.copytree` that raises has made some of the directories and written some of the files,
perhaps in part; it goes on after the first error. `PartlyLaid` is what is certain of what it
leaves: where the source has no entry all is as it was, and a directory is now where one was, or
where the source has one. That is enough for the copy to be made again: the tree laid over what was
left is the tree laid over what was there (`PartlyLaid.laid`), and fits where it did
(`PartlyLaid.fits`).
-/

set_option autoImplicit false

namespace ClawEngine.Posix

open ClawEngine.Core ClawEngine.Core.Act

variable {C : Type}

/-! ## Trees laid in part -/

/-- The tree `left` is `old`, with `src`, whose own name is `base`, laid over a part of it. -/
structure PartlyLaid (base : String) (src old left : Tree C) : Prop where
  made : ∀ rel, src rel = some .dir → left rel = old rel ∨ left rel = some .dir
  dirs : ∀ rel content, src rel = some (.file content) →
    (left rel = some .dir ↔ old rel = some .dir)
  inside : ∀ rel content, src rel = some (.file content) → old rel = some .dir →
    left (rel ++ [rel.getLastD base]) = some .dir → old (rel ++ [rel.getLastD base]) = some .dir
  other : ∀ rel, src rel = none → (∀ init, rel = init ++ [init.getLastD base] →
    (∃ content, src init = some (.file content)) → old init ≠ some .dir) → left rel = old rel

namespace PartlyLaid

variable {base : String} {src old mid left new : Tree C} {content : C}

theorem refl (base : String) (src old : Tree C) : PartlyLaid base src old old :=
  ⟨fun _ _ => .inl rfl, fun _ _ _ => Iff.rfl, fun _ _ _ _ h => h, fun _ _ _ => rfl⟩

theorem trans (h : PartlyLaid base src old mid) (h' : PartlyLaid base src mid left) :
    PartlyLaid base src old left where
  made rel hdir := by
    rcases h'.made rel hdir with hmid | hleft
    · rw [hmid]
      exact h.made rel hdir
    · exact .inr hleft
  dirs rel content hfile := (h'.dirs rel content hfile).trans (h.dirs rel content hfile)
  inside rel content hfile hold hleft :=
    h.inside rel content hfile hold
      (h'.inside rel content hfile ((h.dirs rel content hfile).mpr hold) hleft)
  other rel hnone hother := by
    rw [h'.other rel hnone, h.other rel hnone hother]
    rintro init hinit ⟨content, hfile⟩ hdir
    exact hother init hinit ⟨content, hfile⟩ ((h.dirs init content hfile).mp hdir)

/-- **Laid over what was left is laid over what was there.** -/
theorem laid (h : PartlyLaid base src old mid) (h' : LaidOver base src mid new) :
    LaidOver base src old new where
  dir := h'.dir
  file rel content hfile hnodir :=
    h'.file rel content hfile fun hdir => hnodir ((h.dirs rel content hfile).mp hdir)
  inside rel content hfile hdir :=
    h'.inside rel content hfile ((h.dirs rel content hfile).mpr hdir)
  other rel hnone hother := by
    rw [h'.other rel hnone, h.other rel hnone hother]
    rintro init hinit ⟨content, hfile⟩ hdir
    exact hother init hinit ⟨content, hfile⟩ ((h.dirs init content hfile).mp hdir)

/-- **What fitted before fits over what was left.** -/
theorem fits {fuel : Nat} (h : PartlyLaid base src old left) (hfits : FitsOver fuel base src old) :
    FitsOver fuel base src left where
  dir rel hdir content hfile := by
    rcases h.made rel hdir with hold | hleft
    · exact hfits.dir rel hdir content (hold ▸ hfile)
    · rw [hleft] at hfile
      cases hfile
  file rel content hfile hdir hinside := by
    have hold := (h.dirs rel content hfile).mp hdir
    exact hfits.file rel content hfile hold (h.inside rel content hfile hold hinside)
  depth := hfits.depth

/-- A directory laid in part: what stands under each name is. -/
theorem of_children (hsrc : src [] = some .dir) (hself : left [] = old [] ∨ left [] = some .dir)
    (h : ∀ name, PartlyLaid name (src.under name) (old.under name) (left.under name)) :
    PartlyLaid base src old left where
  made rel hdir := by
    cases rel with
    | nil => exact hself
    | cons name rel => exact (h name).made rel hdir
  dirs rel content hfile := by
    cases rel with
    | nil =>
      rw [hsrc] at hfile
      cases hfile
    | cons name rel => exact (h name).dirs rel content hfile
  inside rel content hfile hold hleft := by
    cases rel with
    | nil =>
      rw [hsrc] at hfile
      cases hfile
    | cons name rel =>
      rw [List.getLastD_cons, List.cons_append] at hleft ⊢
      exact (h name).inside rel content hfile hold hleft
  other rel hnone hother := by
    cases rel with
    | nil =>
      rw [hsrc] at hnone
      cases hnone
    | cons name rel =>
      refine (h name).other rel hnone fun init hinit => hother (name :: init) ?_
      rw [List.cons_append, List.getLastD_cons, ← hinit]

/-- A file written in part where no directory was. -/
theorem of_file (hfile : src [] = some (.file content))
    (hbelow : ∀ name rel, src (name :: rel) = none) (hold : old [] ≠ some .dir)
    (hleft : ∃ content', ∀ rel, left rel = if rel = [] then some (.file content') else old rel) :
    PartlyLaid base src old left where
  made rel hdir := by
    cases rel with
    | nil =>
      rw [hfile] at hdir
      cases hdir
    | cons name rel =>
      rw [hbelow] at hdir
      cases hdir
  dirs rel content hrel := by
    cases rel with
    | nil =>
      obtain ⟨content', hleft⟩ := hleft
      rw [hleft, if_pos rfl]
      exact iff_of_false nofun hold
    | cons name rel =>
      rw [hbelow] at hrel
      cases hrel
  inside rel content hrel hdir _ := by
    cases rel with
    | nil => exact absurd hdir hold
    | cons name rel =>
      rw [hbelow] at hrel
      cases hrel
  other rel hnone _ := by
    obtain ⟨content', hleft⟩ := hleft
    rw [hleft, if_neg]
    rintro rfl
    rw [hfile] at hnone
    cases hnone

/-- A file written in part in the directory that is at its place. -/
theorem of_file_inside (hfile : src [] = some (.file content))
    (hbelow : ∀ name rel, src (name :: rel) = none) (hold : old [] = some .dir)
    (hleft : ∃ content', ∀ rel,
      left rel = if rel = [base] then some (.file content') else old rel) :
    PartlyLaid base src old left where
  made rel hdir := by
    cases rel with
    | nil =>
      rw [hfile] at hdir
      cases hdir
    | cons name rel =>
      rw [hbelow] at hdir
      cases hdir
  dirs rel content hrel := by
    cases rel with
    | nil =>
      obtain ⟨content', hleft⟩ := hleft
      rw [hleft, if_neg (List.cons_ne_nil base []).symm]
    | cons name rel =>
      rw [hbelow] at hrel
      cases hrel
  inside rel content hrel _ hdir := by
    cases rel with
    | nil =>
      obtain ⟨content', hleft⟩ := hleft
      have hwritten : left [base] = some .dir := hdir
      rw [hleft, if_pos rfl] at hwritten
      cases hwritten
    | cons name rel =>
      rw [hbelow] at hrel
      cases hrel
  other rel hnone hother := by
    obtain ⟨content', hleft⟩ := hleft
    rw [hleft, if_neg]
    rintro rfl
    exact hother [] rfl ⟨content, hfile⟩ hold

end PartlyLaid

/-- From `m` to `m'` the tree `src` was laid in part over the entry `s` of `R`. -/
def PartlyAt (src : Tree C) (R : Location) (s : String) (m m' : Machine C) : Prop :=
  PartlyLaid s src (m.disk.treeAt (R ++ [s])) (m'.disk.treeAt (R ++ [s]))

namespace PartlyAt

variable {src : Tree C} {R : Location} {s : String} {m m' m'' : Machine C}

theorem refl (src : Tree C) (R : Location) (s : String) (m : Machine C) : PartlyAt src R s m m :=
  PartlyLaid.refl _ _ _

theorem trans (h : PartlyAt src R s m m') (h' : PartlyAt src R s m' m'') : PartlyAt src R s m m'' :=
  PartlyLaid.trans h h'

/-- What changes nothing there lays nothing. -/
theorem of_same (h : m'.disk.treeAt (R ++ [s]) = m.disk.treeAt (R ++ [s])) :
    PartlyAt src R s m m' := by
  unfold PartlyAt
  rw [h]
  exact PartlyLaid.refl ..

theorem ticks (src : Tree C) (R : Location) (s : String) (m : Machine C) :
    Ticks (PartlyAt src R s m) := fun _ _ h => h

end PartlyAt

/-! ## Files -/

section Files

variable {m m' : Machine C} {dest src : PosixPath} {R : Location} {s name : String}

/-- At `T`, where no directory was, stands a file that was written, perhaps in part; nothing else
changed. -/
def FileLeft (T : Location) (m m' : Machine C) : Prop :=
  m.disk.get? T ≠ some .dir ∧ ∃ content, ∀ p,
    m'.disk.get? p = if p = T then some (.file content) else m.disk.get? p

/-- Nothing changed, or a file was written from one that `src` sees. -/
def CopyLeft (src : PosixPath) (T : Location) (m m' : Machine C) : Prop :=
  (∀ p, m'.disk.get? p = m.disk.get? p) ∨
    FileLeft T m m' ∧ ∃ content, entryOf m src = some (.file content)

theorem CopyLeft.of_sameDisk {T : Location} (h : SameDisk m m') : CopyLeft src T m m' :=
  .inl fun p => by rw [h.1]

theorem CopyLeft.ticks (src : PosixPath) (T : Location) (m : Machine C) :
    Ticks (CopyLeft src T m) := fun _ _ h => h

/-- `open` for writing that raises changes nothing. -/
theorem openWrite_raised [Inhabited C] {p : PosixPath} {e : OsError}
    (h : openWrite p m = (.error e, m')) :
    SameDisk m m' := by
  have hcheck : SameDisk m (checkFault m).2 := (SameDisk.ticks m).checkFault m ⟨rfl, rfl⟩
  rcases bind_eq_error.mp h with h | ⟨_, m₁, hok, h⟩
  · rwa [h] at hcheck
  · rw [hok] at hcheck
    split at h
    · split at h
      · cases h
        exact hcheck
      · cases h
    · cases h
    · cases h
      exact hcheck

theorem FileLeft.writeAt {T : Location} (h : FileLeft T m m') (content : C) :
    FileLeft T m (writeAt T content m').2 := by
  obtain ⟨hnodir, before, hbefore⟩ := h
  have hcan : m'.disk.CanPut T := Disk.canPut_of_file ((hbefore T).trans (if_pos rfl))
  have hput : ∀ content', FileLeft T m { m' with disk := m'.disk.put T (.file content') } := by
    refine fun content' => ⟨hnodir, content', fun p => ?_⟩
    rw [Disk.get?_put hcan, hbefore]
    split <;> rfl
  unfold Posix.writeAt
  split
  · exact hput _
  · exact hput content

/-- **`copyfile` to a slot**, returning or raising. -/
theorem copyfile_slot_left [Inhabited C] (h : Slot m dest R s) (hname : isEntryName name = true) :
    CopyLeft (src.child name) (R ++ [s]) m (copyfile (src.child name) (dest.child s) m).2 := by
  unfold copyfile
  rw [read_bind]
  split
  · exact .of_sameDisk ⟨rfl, rfl⟩
  rw [mapError_left]
  refine bind_ends_at (.of_sameDisk ((SameDisk.ticks m).openRead _ m ⟨rfl, rfl⟩))
    fun read m₁ hopen _ => ?_
  obtain ⟨hsame, hfound, content, hfile⟩ := openRead_eq_ok hname hopen
  have hsrc : entryOf m (src.child name) = some (.file content) := by
    rw [entryOf, hfound]
    exact hfile
  have hslot := h.after (Expands.of_disk hsame.1 hsame.2)
  have hopened : ∀ q m₂, openWrite (dest.child s) m₁ = (.ok q, m₂) →
      q = R ++ [s] ∧ FileLeft (R ++ [s]) m m₂ := by
    intro q m₂ hopen
    obtain ⟨hq, hnodir, -, hget⟩ := openWrite_slot_get hslot hopen
    rw [hsame.1] at hnodir hget
    exact ⟨hq, hnodir, _, hget⟩
  refine bind_ends_at ?_ fun q m₂ hopen _ => ?_
  · cases hrun : openWrite (dest.child s) m₁ with
    | mk answer m₂ =>
      cases answer with
      | ok q => exact .inr ⟨(hopened q m₂ hrun).2, content, hsrc⟩
      | error e =>
        have hsame' := openWrite_raised hrun
        exact .of_sameDisk ⟨hsame'.1.trans hsame.1, hsame'.2.trans hsame.2⟩
  obtain ⟨rfl, hleft⟩ := hopened q m₂ hopen
  have hkept : FileLeft (R ++ [s]) m (readAt read m₂).2 := by
    have hticks : Ticks (FileLeft (R ++ [s]) m) := fun _ _ h => h
    exact hticks.readAt read m₂ hleft
  refine bind_ends_at (.inr ⟨hkept, content, hsrc⟩) fun content' m₃ hread _ => ?_
  rw [hread] at hkept
  exact .inr ⟨hkept.writeAt content', content, hsrc⟩

/-- Times and permissions that are copied, or not, leave the file as it is. -/
theorem copystat_left [Inhabited C] {p : PosixPath} {T : Location}
    (h : CopyLeft src T m (copyfile src p m).2) :
    CopyLeft src T m
      ((copyfile src p >>= fun _ => (copystat src p).mapError FsError.os) m).2 := by
  refine bind_ends_at h fun _ m₁ _ hm₁ => ?_
  rw [mapError_left]
  exact (CopyLeft.ticks src T m).copystat _ _ m₁ hm₁

/-- **`copy2` to a slot of the same name**, returning or raising, lays the file in part over what
was there. -/
theorem copy2_slot_left [Inhabited C] (h : Slot m dest R s) :
    PartlyAt (treeOf m (src.child s)) R s m (copy2 (src.child s) (dest.child s) m).2 := by
  have hself : ∀ content, entryOf m (src.child s) = some (.file content) →
      treeOf m (src.child s) [] = some (.file content) := fun content hfile => by
    rw [treeOf_nil, hfile]
  unfold copy2
  rw [read_bind]
  split
  next hisdir =>
    have hdir := isdir_slot h hisdir
    rw [PosixPath.basename_child]
    rcases copystat_left (copyfile_slot_left (h.child hdir h.name) h.name) with
      hsame | ⟨⟨-, content', hget⟩, content, hfile⟩
    · exact .of_same (funext fun rel => hsame _)
    · refine PartlyLaid.of_file_inside (hself content hfile) (treeOf_below_file hfile) ?_
        ⟨content', fun rel => ?_⟩
      · rw [Disk.treeAt, List.append_nil, hdir]
      · rw [Disk.treeAt, Disk.treeAt, hget]
        simp only [List.append_cancel_left_eq]
  next hisdir =>
    rcases copystat_left (copyfile_slot_left h h.name) with
      hsame | ⟨⟨hnodir, content', hget⟩, content, hfile⟩
    · exact .of_same (funext fun rel => hsame _)
    · refine PartlyLaid.of_file (hself content hfile) (treeOf_below_file hfile) ?_
        ⟨content', fun rel => ?_⟩
      · rwa [Disk.treeAt, List.append_nil]
      · rw [Disk.treeAt, Disk.treeAt, hget]
        simp only [List.append_right_eq_self]

end Files

/-! ## Directories -/

section Directories

variable {m m' : Machine C} {dest src : PosixPath} {R : Location} {s : String}

/-- At `T` a directory was made, or nothing; nothing else changed. -/
structure DirLeft (T : Location) (m m' : Machine C) : Prop where
  expands : Expands (Beside T) m m'
  self : m'.disk.get? T = m.disk.get? T ∨ m'.disk.get? T = some .dir
  other : ∀ q, q ≠ T → m'.disk.get? q = m.disk.get? q

/-- **`makedirs` at a slot**, returning or raising. -/
theorem makedirs_slot_left (h : Slot m dest R s) (fuel : Nat) :
    DirLeft (R ++ [s]) m (makedirs fuel (dest.child s) m).2 := by
  have hwrites := h.writes
  have hmakes : Makes (DirLeft (R ++ [s]) m) {dest.child s} := by
    refine ⟨fun m' n hm => ⟨hwrites.tick m' n hm.expands, hm.self, hm.other⟩,
      fun m' p q hm hp hq => ?_, fun m' p hm hp hlacks => ?_⟩
    · obtain rfl : p = dest.child s := hp
      obtain ⟨rfl, hcan⟩ := (h.after hm.expands).canPut hq
      refine ⟨hwrites.dir m' _ _ hm.expands (child_through dest s) hq, .inr ?_, fun q hne => ?_⟩
      · exact (Disk.get?_put hcan _ _).trans (if_pos rfl)
      · exact (Disk.get?_put_of_ne hne _).trans (hm.other q hne)
    · obtain rfl : p = dest.child s := hp
      rw [(h.after hm.expands).lacksHead] at hlacks
      cases hlacks
  exact hmakes.makedirs fuel rfl m ⟨.refl _ m, .inl rfl, fun _ _ => rfl⟩

/-- What is under the names in the directory stays. -/
theorem DirLeft.treeAt_eq {T : Location} (h : DirLeft T m m') (name : String) :
    m'.disk.treeAt (T ++ [name]) = m.disk.treeAt (T ++ [name]) := by
  funext rel
  refine h.other _ fun heq => ?_
  rw [List.append_assoc] at heq
  exact List.append_ne_nil_of_left_ne_nil (List.cons_ne_nil name []) rel
    (List.append_right_eq_self.mp heq)

variable [Inhabited C] {copyDir : PosixPath → PosixPath → Fs C Unit}

/-- `copyDir`, returning or raising, lays what it copies in part over what is at a slot. -/
structure LaysPartly (copyDir : PosixPath → PosixPath → Fs C Unit) : Prop extends Lays copyDir where
  partly : ∀ {m : Machine C} {dest src : PosixPath} {R : Location} {s : String},
    Slot m dest R s → Apart {R ++ [s]} m src →
    PartlyAt (treeOf m src) R s m (copyDir src (dest.child s) m).2

/-- The copy of one entry, returning or raising. -/
theorem LaysPartly.copyEntry (h : LaysPartly copyDir) (hslot : Slot m dest R s)
    (hapart : Apart {R ++ [s]} m (src.child s)) (kind : EntryKind) :
    PartlyAt (treeOf m (src.child s)) R s m
      (Posix.copyEntry copyDir src dest (s, kind) m).2 := by
  have hdir := h.partly hslot hapart
  have hfile : PartlyAt (treeOf m (src.child s)) R s m _ := copy2_slot_left hslot
  have hnone := PartlyAt.refl (treeOf m (src.child s)) R s m
  cases kind with
  | dir => exact hdir
  | file => exact hfile
  | link =>
    refine bind_ends_at ?_ fun _ m₁ hread _ => ?_
    · rwa [mapError_left]
    obtain ⟨-, rfl⟩ := readE_eq_ok.mp (mapError_eq_ok.mp hread)
    refine bind_ends_at ?_ fun isDir m₁ hread _ => ?_
    · rwa [mapError_left]
    obtain ⟨-, rfl⟩ := readE_eq_ok.mp (mapError_eq_ok.mp hread)
    split
    · exact hdir
    · exact hfile

/-- Where the loop over the entries ends: where the copy of the first does, or where the loop over
the rest does from there. -/
theorem copyEntries_cons_left (copyDir : PosixPath → PosixPath → Fs C Unit) (src dst : PosixPath)
    (entry : String × EntryKind) (entries : List (String × EntryKind)) (m : Machine C) :
    (copyEntries copyDir src dst (entry :: entries) m).2 = (copyEntry copyDir src dst entry m).2 ∨
      (copyEntries copyDir src dst (entry :: entries) m).2 =
        (copyEntries copyDir src dst entries (copyEntry copyDir src dst entry m).2).2 := by
  have hrest : ∀ (errors : List CopyFault) m₁,
      ((do
        let rest ← copyEntries copyDir src dst entries
        pure (errors ++ rest) : Fs C (List CopyFault)) m₁).2 =
        (copyEntries copyDir src dst entries m₁).2 := fun errors m₁ =>
    bind_ends_at (I := (· = (copyEntries copyDir src dst entries m₁).2)) rfl fun _ _ _ h => h
  generalize hrun : copyEntry copyDir src dst entry m = out
  obtain ⟨answer, m₁⟩ := out
  have hloop : copyEntries copyDir src dst (entry :: entries) m = _ :=
    bind_of_ok (attempt_eq_ok.mpr hrun)
  rw [hloop]
  cases answer with
  | ok u => exact .inr rfl
  | error e =>
    dsimp only
    cases e.faults (src.child entry.1) (dst.child entry.1) with
    | none => exact .inl rfl
    | some errors => exact .inr (hrest errors m₁)

/-- **The loop over the entries**, returning or raising: what is under each name of the list is laid
in part over what was there, and what is under another is as it was. -/
theorem LaysPartly.copyEntries (h : LaysPartly copyDir) (entries : List (String × EntryKind))
    (hnames : ∀ entry ∈ entries, isEntryName entry.1 = true) (hslot : Slot m dest R s)
    (hdir : m.disk.get? (R ++ [s]) = some .dir) (hapart : Apart {R ++ [s]} m src)
    (name : String) :
    (name ∈ entries.map Prod.fst → PartlyAt (treeOf m (src.child name)) (R ++ [s]) name m
      (Posix.copyEntries copyDir src (dest.child s) entries m).2) ∧
    (name ∉ entries.map Prod.fst →
      (Posix.copyEntries copyDir src (dest.child s) entries m).2.disk.treeAt (R ++ [s] ++ [name]) =
        m.disk.treeAt (R ++ [s] ++ [name])) := by
  induction entries generalizing m with
  | nil => exact ⟨nofun, fun _ => rfl⟩
  | cons entry entries ih =>
    obtain ⟨first, kind⟩ := entry
    have hfirst : isEntryName first = true := hnames _ List.mem_cons_self
    have hslot₁ := hslot.child hdir hfirst
    have hcopy := h.copyEntry hslot₁ ((hapart.child hfirst).mono (covers_below _ _)) kind
    have hexpands := h.copyEntry_expands src hslot₁ kind m (.refl _ m)
    have hends := copyEntries_cons_left copyDir src (dest.child s) (first, kind) entries m
    generalize (Posix.copyEntry copyDir src (dest.child s) (first, kind) m).2 = m₁
      at hcopy hexpands hends
    have hbeside : Expands (Beside (R ++ [s])) m m₁ :=
      hexpands.mono fun p hp hpre => hp ((List.prefix_append _ _).trans hpre)
    -- what the first copy leaves under the name
    have hone : (name = first → PartlyAt (treeOf m (src.child name)) (R ++ [s]) name m m₁) ∧
        (name ≠ first →
          m₁.disk.treeAt (R ++ [s] ++ [name]) = m.disk.treeAt (R ++ [s] ++ [name])) :=
      ⟨fun heq => heq ▸ hcopy, treeAt_beside hexpands⟩
    obtain ⟨hin, hout⟩ := ih (fun e he => hnames e (List.mem_cons_of_mem _ he))
      (hslot.after hbeside) (hbeside.kept.dir hdir) (hapart.congr hbeside.sameOff)
    have hfirst' : name ∈ first :: entries.map Prod.fst →
        PartlyAt (treeOf m (src.child name)) (R ++ [s]) name m m₁ := fun hmem => by
      by_cases heq : name = first
      · exact hone.1 heq
      · exact .of_same (hone.2 heq)
    rw [List.map_cons]
    rcases hends with hends | hends
    · rw [hends]
      exact ⟨hfirst', fun hnot => hone.2 (List.ne_of_not_mem_cons hnot)⟩
    · rw [hends]
      refine ⟨fun hmem => (hfirst' hmem).trans ?_, fun hnot => ?_⟩
      · by_cases hrest : name ∈ entries.map Prod.fst
        · obtain ⟨e, he, rfl⟩ := List.mem_map.mp hrest
          have hname := hnames e (List.mem_cons_of_mem _ he)
          rw [← (hapart.child hname).treeOf_eq hname hbeside.sameOff]
          exact hin hrest
        · exact .of_same (hout hrest)
      · rw [hout (List.not_mem_of_not_mem_cons hnot), hone.2 (List.ne_of_not_mem_cons hnot)]

/-- **Copying a directory to a slot**, returning or raising, lays its tree in part over what is
there. -/
theorem copytree_laysPartly (fuel : Nat) : LaysPartly (C := C) (copytree fuel) := by
  refine ⟨copytree_lays fuel, ?_⟩
  induction fuel with
  | zero => exact fun _ _ => .refl ..
  | succ fuel ih =>
    intro m dest src R s hslot hapart
    have hcopies : LaysPartly (C := C) (copytree fuel) := ⟨copytree_lays fuel, ih⟩
    refine bind_ends_at (I := PartlyAt (treeOf m src) R s m) ?_ fun entries m₀ hscan _ => ?_
    · rw [mapError_left]
      exact .refl ..
    obtain ⟨rfl, q, hleads, rfl⟩ := scandir_eq_ok.mp (mapError_eq_ok.mp hscan)
    have hchildren : ∀ m', (m'.disk.get? (R ++ [s]) = m₀.disk.get? (R ++ [s]) ∨
        m'.disk.get? (R ++ [s]) = some .dir) →
        (∀ name, PartlyLaid name ((treeOf m₀ src).under name)
          (m₀.disk.treeAt (R ++ [s] ++ [name])) (m'.disk.treeAt (R ++ [s] ++ [name]))) →
        PartlyAt (treeOf m₀ src) R s m₀ m' := fun m' hself h => by
      refine PartlyLaid.of_children ?_ ?_ fun name => ?_
      · rw [treeOf_nil, entryOf, hleads.found]
        exact hleads.dir
      · rwa [Disk.treeAt, Disk.treeAt, List.append_nil]
      · rw [Disk.treeAt_under, Disk.treeAt_under]
        exact h name
    have hleft := makedirs_slot_left hslot recursionLimit
    refine bind_ends_at (hchildren _ hleft.self fun name => ?_) fun _ m₁ hmade _ => ?_
    · rw [hleft.treeAt_eq]
      exact .refl ..
    rw [hmade] at hleft
    have hslot₁ := hslot.after hleft.expands
    have hloop := hcopies.copyEntries (listing m₀.disk q) (fun _ hentry => listing_names hentry)
      hslot₁ (makedirs_slot hslot hmade) (hapart.congr hleft.expands.sameOff)
    have hbelow := hleft.treeAt_eq
    dsimp only at hbelow
    simp only [listing_map_fst, Disk.mem_children, PartlyAt, hbelow] at hloop
    have hdir := (hslot₁.writes.copyEntries (fun src dst => hslot₁.writes.copytree fuel src)
      src (child_through dest s) (listing m₀.disk q) (fun _ hentry => listing_names hentry) m₁
      (.refl _ m₁)).kept.dir (makedirs_slot hslot hmade)
    refine bind_ends_at (hchildren _ (.inr hdir) fun name => ?_) fun errors m₂ _ hm₂ => ?_
    · by_cases hthere : (m₀.disk.get? (q ++ [name])).isSome
      · obtain ⟨e, he⟩ := Option.isSome_iff_exists.mp hthere
        have hname := (Disk.parent_dir he).2
        rw [treeOf_under _ _ hname,
          ← (hapart.child hname).treeOf_eq hname hleft.expands.sameOff]
        exact (hloop name).1 hthere
      · rw [(hloop name).2 hthere]
        exact .refl ..
    · have hticks := PartlyAt.ticks (treeOf m₀ src) R s m₀
      refine (copystatOf_keeps hticks src (dest.child s) errors).bind (fun errors => ?_) m₂ hm₂
      split
      · exact keeps_pure _
      · exact keeps_raise _

end Directories

end ClawEngine.Posix
