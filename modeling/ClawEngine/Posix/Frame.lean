import ClawEngine.Posix.Zone

/-!
# What operations leave alone

Making, writing, copying and removing below a directory, along a path that leads there without
links: only what is at or below the named entry changes, and no link is added. Making and copying
also keep every entry. `Slot` is the name of an entry that may be written so: the zone spared then is
everything that is not at or below it.
-/

set_option autoImplicit false

namespace ClawEngine.Posix

open ClawEngine.Core ClawEngine.Core.Act

variable {C : Type}

/-! ## Changes below an entry -/

/-- From `m` to `m'` only what is at or below `T` changed, and no link was added. -/
structure Confined (T : Location) (m m' : Machine C) : Prop where
  workdir : m'.workdir = m.workdir
  outside : ∀ p, ¬ T <+: p → m'.disk.get? p = m.disk.get? p
  links : ∀ p target, m'.disk.get? p = some (.link target) → m.disk.get? p = some (.link target)

/-- And every directory is still there. -/
structure Grows (T : Location) (m m' : Machine C) : Prop extends Confined T m m' where
  dirs : ∀ p, m.disk.get? p = some .dir → m'.disk.get? p = some .dir

namespace Confined

variable {T : Location} {m m' : Machine C}

/-- What is below `R` and not `R` itself may differ, and nothing else. -/
theorem sameOutside {R : Location} {name : String} (h : Confined (R ++ [name]) m m') :
    SameOutside R m m' := by
  refine ⟨h.workdir, fun p hp => h.outside p fun hpre => hp ?_⟩
  refine ⟨(List.prefix_append R [name]).trans hpre, ?_⟩
  rintro rfl
  have hlen := hpre.length_le
  rw [List.length_append, List.length_singleton] at hlen
  omega

end Confined

namespace Grows

variable {T : Location} {m m' : Machine C}

/-- What expands beside everything that is not at or below `T`. -/
theorem of_expands (h : Expands (Beside T) m m') : Grows T m m' where
  workdir := h.workdir
  outside p hp := h.same p hp
  links := h.links
  dirs _ hp := h.kept.dir hp

/-- A directory that grows without links in it keeps every way. -/
theorem ways (h : Grows T m m') (hlinks : ∀ p, T <+: p → ∀ target,
    m.disk.get? p ≠ some (.link target)) : WaysIn m.disk m'.disk where
  dirs := h.dirs
  links p target hp := by
    rw [h.outside p fun hT => hlinks p hT target hp]
    exact hp

end Grows

/-- What spares everything that is not at or below `T`. -/
theorem Confined.of_spares {T : Location} {m m' : Machine C} (h : Spares (Beside T) m m') :
    Confined T m m' := ⟨h.workdir, h.same, h.links⟩

/-! ## Paths that stay below an entry -/

/-- No link stands at or below `T`. -/
def NoLinks (m : Machine C) (T : Location) : Prop :=
  ∀ p, T <+: p → ∀ target, m.disk.get? p ≠ some (.link target)

theorem NoLinks.mono {m m' : Machine C} {T : Location} (h : NoLinks m T)
    (hlinks : ∀ p target, m'.disk.get? p = some (.link target) →
      m.disk.get? p = some (.link target)) : NoLinks m' T :=
  fun p hp target ht => h p hp target (hlinks p target ht)

/-- An entry `s` of a directory that a path leads to, without links at or below it. -/
structure Slot (m : Machine C) (dest : PosixPath) (R : Location) (s : String) : Prop where
  leads : Leads m dest R
  name : isEntryName s = true
  noLinks : NoLinks m (R ++ [s])

section Slots

variable {m m' : Machine C} {dest : PosixPath} {R : Location} {s : String}

/-- A slot stays one while something grows, there or beside it. -/
theorem Slot.mono {T : Location} (h : Slot m dest R s) (hT : NoLinks m T) (hg : Grows T m m') :
    Slot m' dest R s :=
  ⟨h.leads.ways (hg.ways hT) hg.workdir, h.name, h.noLinks.mono hg.links⟩

/-- The path `dest` itself is there. -/
theorem Slot.exists_dest (h : Slot m dest R s) : exists? m dest = true := by
  rw [exists?, h.leads.found]

/-- **Below a slot, a path is looked up at the location it spells.** -/
theorem Slot.lookup (h : Slot m dest R s) (follow : Bool) {names : List String}
    (hnames : ∀ name ∈ names, isEntryName name = true) :
    Spelled m.disk R (s :: names) (lookup m follow (dest.descend (s :: names))) := by
  refine lookup_below h.leads (List.cons_ne_nil _ _) ?_ ?_
  · intro name hname
    rcases List.mem_cons.mp hname with rfl | hrest
    · exact h.name
    · exact hnames name hrest
  · intro q hq target
    cases q with
    | nil =>
      rw [List.append_nil, h.leads.dir]
      intro hlink
      cases hlink
    | cons x q =>
      obtain ⟨rfl, -⟩ := List.cons_prefix_cons.mp hq
      rw [List.append_cons]
      exact h.noLinks _ (List.prefix_append _ q) target

/-- Where a path below a slot is found or missing. -/
theorem Slot.lookup_loc (h : Slot m dest R s) {follow : Bool} {names : List String}
    (hnames : ∀ name ∈ names, isEntryName name = true) {q : Location}
    (hq : Posix.lookup m follow (dest.descend (s :: names)) = .found q ∨
      Posix.lookup m follow (dest.descend (s :: names)) = .missing q) :
    q = R ++ s :: names := by
  have hspelled := h.lookup follow hnames
  generalize Posix.lookup m follow (dest.descend (s :: names)) = out at hspelled hq
  cases hspelled with
  | found he => rcases hq with hq | hq <;> cases hq; rfl
  | missing _ _ _ => rcases hq with hq | hq <;> cases hq; rfl
  | error e => rcases hq with hq | hq <;> cases hq

/-- Through a slot, everything is put at or below it. -/
theorem Slot.safe (h : Slot m dest R s) :
    Safe (Expands (Beside (R ++ [s])) m) (Beside (R ++ [s])) dest s := by
  rintro m' hm p ⟨names, hnames, rfl⟩ q hq hout
  have hslot := h.mono h.noLinks (.of_expands hm)
  refine hout ?_
  have hloc : q = R ++ s :: names := by
    rcases hq with hmissing | hmissing | ⟨hfound, -⟩
    · exact hslot.lookup_loc hnames (.inr hmissing)
    · exact hslot.lookup_loc hnames (.inr hmissing)
    · exact hslot.lookup_loc hnames (.inl hfound)
  rw [hloc, List.append_cons R s names]
  exact List.prefix_append _ _

theorem Slot.writes (h : Slot m dest R s) :
    Writes (Expands (Beside (R ++ [s])) m) (Through dest s)
      fun q => q ∉ Beside (R ++ [s]) ∧ ∀ target, m.disk.get? q ≠ some (.link target) :=
  h.safe.writes h.leads h.name

end Slots

/-! ## What was made is there -/

section Made

variable {m m' : Machine C} {dest : PosixPath} {R : Location} {s : String}

theorem slot_names : ∀ name ∈ ([] : List String), isEntryName name = true := nofun

/-- A slot stays one while something is made or written in it. -/
theorem Slot.after (h : Slot m dest R s) (he : Expands (Beside (R ++ [s])) m m') :
    Slot m' dest R s := h.mono h.noLinks (.of_expands he)

/-- What is looked up at a slot is found or missing there. -/
theorem Slot.lookup_self (h : Slot m dest R s) {follow : Bool} {q : Location}
    (hq : Posix.lookup m follow (dest.child s) = .found q ∨
      Posix.lookup m follow (dest.child s) = .missing q) : q = R ++ [s] :=
  h.lookup_loc slot_names hq

/-- A missing slot can be filled. -/
theorem Slot.canPut (h : Slot m dest R s) {follow : Bool} {q : Location}
    (hq : Posix.lookup m follow (dest.child s) = .missing q) :
    q = R ++ [s] ∧ m.disk.CanPut (R ++ [s]) := by
  have hspelled := h.lookup follow slot_names
  rw [show Posix.lookup m follow (dest.descend [s]) = .missing q from hq] at hspelled
  exact ⟨h.lookup_self (.inr hq),
    Disk.canPut_of_missing h.name h.leads.dir hspelled.of_missing⟩

theorem isdir_slot (h : Slot m dest R s) (hdir : isdir m (dest.child s) = true) :
    m.disk.get? (R ++ [s]) = some .dir := by
  obtain ⟨q, hq, hdir⟩ := isdir_iff.mp hdir
  rwa [← h.lookup_self (.inl hq)]

theorem mkdir_slot (h : Slot m dest R s) (hok : mkdir (dest.child s) m = (.ok (), m')) :
    m'.disk.get? (R ++ [s]) = some .dir := by
  obtain ⟨_, m₁, hfault, hmade⟩ := bind_eq_ok.mp hok
  have hslot := h.after (h.writes.tick.checkFault.of_eq (.refl _ m) hfault)
  split at hmade
  · cases hmade
  next q hq =>
    obtain ⟨-, rfl⟩ := Prod.mk.inj hmade
    obtain ⟨rfl, hcan⟩ := hslot.canPut hq
    show (m₁.disk.put (R ++ [s]) .dir).get? (R ++ [s]) = some .dir
    rw [Disk.get?_put hcan, if_pos rfl]
  · cases hmade

theorem mkdirExistOk_slot (h : Slot m dest R s)
    (hok : mkdirExistOk (dest.child s) m = (.ok (), m')) :
    m'.disk.get? (R ++ [s]) = some .dir := by
  obtain ⟨outcome, m₁, hattempt, hrest⟩ := bind_eq_ok.mp hok
  obtain ⟨houtcome, hleft⟩ := Prod.mk.inj hattempt
  split at hrest
  next hmade =>
    cases hrest
    refine mkdir_slot h (Prod.ext ?_ hleft)
    exact Except.ok.inj houtcome
  next e hfailed =>
    obtain ⟨isDir, m₂, hread, hend⟩ := bind_eq_ok.mp hrest
    cases hread
    split at hend
    next hdir =>
      cases hend
      refine isdir_slot (h.after ?_) hdir
      rw [← hleft]
      exact h.writes.toMakes.mkdir (child_through dest s) m (.refl _ m)
    · cases hend

/-- The directory of a slot is there. -/
theorem Slot.lacksHead (h : Slot m dest R s) : lacksHead m (dest.child s) = false := by
  have hdest : (dest.child s).head = dest := by
    simp only [PosixPath.head, PosixPath.child, List.dropLast_concat]
  simp only [Posix.lacksHead, hdest, h.exists_dest, Bool.not_true, Bool.and_false]

theorem makedirs_slot (h : Slot m dest R s) {fuel : Nat}
    (hok : makedirs fuel (dest.child s) m = (.ok (), m')) :
    m'.disk.get? (R ++ [s]) = some .dir := by
  cases fuel with
  | zero => cases hok
  | succ fuel =>
    obtain ⟨lacks, m₁, hread, hrest⟩ := bind_eq_ok.mp hok
    cases hread
    split at hrest
    next hl => exact absurd (h.lacksHead.symm.trans hl) Bool.false_ne_true
    next => exact mkdirExistOk_slot h hrest

/-- **A directory copied to a slot is there when the copy returns**, and beside the slot nothing has
changed. -/
theorem copytree_slot [Inhabited C] (h : Slot m dest R s) {fuel : Nat} {src : PosixPath}
    (hok : copytree fuel src (dest.child s) m = (.ok (), m')) :
    Expands (Beside (R ++ [s])) m m' ∧ m'.disk.get? (R ++ [s]) = some .dir := by
  have hthrough := child_through dest s
  refine ⟨(h.writes.copytree fuel src hthrough).of_eq (.refl _ m) hok, ?_⟩
  cases fuel with
  | zero => cases hok
  | succ fuel =>
    obtain ⟨entries, m₁, hscan, hok⟩ := bind_eq_ok.mp hok
    obtain ⟨_, m₂, hmade, hok⟩ := bind_eq_ok.mp hok
    have hm₁ := (Keeps.mapError FsError.os (keeps_readE _)).of_eq
      (I := Expands (Beside (R ++ [s])) m) (.refl _ m) hscan
    have hslot := h.after hm₁
    have hdir := makedirs_slot hslot hmade
    have hm₂ := (hslot.writes.toMakes.makedirs _ hthrough).of_eq (.refl _ m₁) hmade
    have hwrites := (hslot.after hm₂).writes
    obtain ⟨errors, m₃, hcopied, hok⟩ := bind_eq_ok.mp hok
    obtain ⟨errors', m₄, hstat, hend⟩ := bind_eq_ok.mp hok
    have hm₃ := (hwrites.copyEntries (fun src _ hdst => hwrites.copytree fuel src hdst) src hthrough
      entries (scandir_names hscan)).of_eq (.refl _ m₂) hcopied
    have hm₄ := (copystatOf_keeps hwrites.tick _ _ _).of_eq hm₃ hstat
    split at hend
    · cases hend
      exact hm₄.kept.dir hdir
    · cases hend

/-- No file appears where a directory is copied to. -/
theorem copytree_slot_file [Inhabited C] (h : Slot m dest R s) (fuel : Nat) (src : PosixPath)
    {content : C}
    (hfile : (copytree fuel src (dest.child s) m).2.disk.get? (R ++ [s]) = some (.file content)) :
    m.disk.get? (R ++ [s]) = some (.file content) := by
  let J : Machine C → Prop := fun m' =>
    m'.disk.get? (R ++ [s]) = some (.file content) → m.disk.get? (R ++ [s]) = some (.file content)
  suffices hends : J (copytree fuel src (dest.child s) m).2 from hends hfile
  have hmakes : Makes J Set.univ := by
    refine ⟨fun _ _ hm => hm, fun m' _ q hm _ _ hput => ?_, fun _ _ _ _ _ => Set.mem_univ _⟩
    by_cases hcan : m'.disk.CanPut q
    · have hget := (Disk.get?_put hcan .dir (R ++ [s])).symm.trans hput
      split at hget
      · cases hget
      · exact hm hget
    · rw [Disk.put, dif_neg hcan] at hput
      exact hm hput
  cases fuel with
  | zero => exact fun hsame => hsame
  | succ fuel =>
    have hthrough := child_through dest s
    refine bind_ends_at ?_ fun entries m₁ hscan hm₁ => ?_
    · exact (keeps_readE _).mapError _ m fun hsame => hsame
    refine bind_ends_at (hmakes.makedirs _ (Set.mem_univ _) m₁ hm₁) fun _ m₂ hmade _ => ?_
    -- the directory is there, and stays
    have hslot := h.after ((Keeps.mapError FsError.os (keeps_readE _)).of_eq (.refl _ m) hscan)
    have hdir := makedirs_slot hslot hmade
    have hwrites := (hslot.after ((hslot.writes.toMakes.makedirs _ hthrough).of_eq
      (.refl _ m₁) hmade)).writes
    have hrest : Keeps (Expands (Beside (R ++ [s])) m₂) (do
        let errors ← copyEntries (copytree fuel) src (dest.child s) entries
        let errors ← copystatOf src (dest.child s) errors
        if errors.isEmpty then pure () else Act.raise (.shutil errors)) := by
      refine (hwrites.copyEntries (fun src _ hdst => hwrites.copytree fuel src hdst) src hthrough
        entries (scandir_names hscan)).bind fun errors => ?_
      refine (copystatOf_keeps hwrites.tick _ _ _).bind fun errors => ?_
      split
      · exact keeps_pure _
      · exact keeps_raise _
    intro hput
    rw [(hrest m₂ (.refl _ m₂)).kept.dir hdir] at hput
    cases hput

/-- A file that a directory has is in its listing. -/
theorem mem_listing {d : Disk C} {q : Location} {name : String} {e : Entry C}
    (h : d.get? (q ++ [name]) = some e) : (name, e.kind) ∈ listing d q := by
  refine List.mem_filterMap.mpr ⟨name, Disk.mem_children.mpr ?_, ?_⟩
  · rw [h]
    rfl
  · rw [h]
    rfl

/-- A file opened for writing at a slot is there, without content. -/
theorem openWrite_slot [Inhabited C] (h : Slot m dest R s) {q : Location}
    (hok : openWrite (dest.child s) m = (.ok q, m')) :
    q = R ++ [s] ∧ m'.disk.get? (R ++ [s]) = some (.file default) := by
  obtain ⟨_, m₁, hfault, hopen⟩ := bind_eq_ok.mp hok
  have hslot := h.after (h.writes.tick.checkFault.of_eq (.refl _ m) hfault)
  have hput : ∀ hcan : m₁.disk.CanPut (R ++ [s]),
      (m₁.disk.put (R ++ [s]) (.file default)).get? (R ++ [s]) = some (.file default) := by
    intro hcan
    rw [Disk.get?_put hcan, if_pos rfl]
  split at hopen
  next p hp =>
    have hp' := hslot.lookup_self (.inl hp)
    split at hopen
    · cases hopen
    next hnodir =>
      obtain ⟨hq, rfl⟩ := Prod.mk.inj hopen
      cases hq
      have hspelled := hslot.lookup true slot_names
      rw [show Posix.lookup m₁ true (dest.descend [s]) = .found _ from hp] at hspelled
      obtain ⟨e, he⟩ := hspelled.of_found
      subst hp'
      refine ⟨rfl, hput ?_⟩
      cases e with
      | dir => exact absurd (Disk.isDirAt_iff.mpr he) hnodir
      | file content => exact Disk.canPut_of_file he
      | link target => exact absurd he (hslot.noLinks _ (List.prefix_refl _) target)
  next p hp =>
    obtain ⟨hq, rfl⟩ := Prod.mk.inj hopen
    cases hq
    obtain ⟨rfl, hcan⟩ := hslot.canPut hp
    exact ⟨rfl, hput hcan⟩
  · cases hopen

/-- **A file written to a slot holds its content when the writing returns.** -/
theorem writeFile_slot [Inhabited C] (h : Slot m dest R s) {content : C}
    (hok : writeFile (dest.child s) content m = (.ok (), m')) :
    Expands (Beside (R ++ [s])) m m' ∧ m'.disk.get? (R ++ [s]) = some (.file content) := by
  refine ⟨(h.writes.toFills.writeFile (child_through dest s) content).of_eq (.refl _ m) hok, ?_⟩
  obtain ⟨q, m₁, hopen, hwrite⟩ := bind_eq_ok.mp hok
  obtain ⟨rfl, hfile⟩ := openWrite_slot h hopen
  have hcan := Disk.canPut_of_file hfile
  unfold writeAt at hwrite
  split at hwrite
  · cases hwrite
  · obtain ⟨-, rfl⟩ := Prod.mk.inj hwrite
    show (m₁.disk.put (R ++ [s]) (.file content)).get? (R ++ [s]) = _
    rw [Disk.get?_put hcan, if_pos rfl]

/-- Writing a file keeps what survives files with a good content at its place. -/
theorem writeFile_good [Inhabited C] {I : Machine C → Prop} {G : C → Prop} {p : PosixPath}
    {T : Location} (htick : Ticks I) (hlands : ∀ m q, I m → OpensAt m p q → q = T)
    (hfile : ∀ m content, I m → G content → I { m with disk := m.disk.put T (.file content) })
    (hdropped : G default) (hleft : ∀ m n fault, I m → m.faults n = some fault → G fault.left)
    {content : C} (hcontent : G content) : Keeps I (writeFile p content) := by
  have hopened : ∀ m q, I m → OpensAt m p q →
      I { m with disk := m.disk.put q (.file default) } := fun m q hm hq => by
    rw [hlands m q hm hq]
    exact hfile m default hm hdropped
  have hopen : Keeps I (openWrite p) := by
    refine htick.checkFault.bind fun _ m hm => ?_
    split
    next q hq =>
      split
      · exact hm
      next hnodir => exact hopened m q hm (.inr ⟨hq, Bool.not_eq_true _ ▸ hnodir⟩)
    next q hq => exact hopened m q hm (.inl hq)
    · exact hm
  refine hopen.bind_of (P := (· = T)) ?_ ?_
  · intro m q m' hm hok
    obtain ⟨_, m₁, hcheck, hok⟩ := bind_eq_ok.mp hok
    have hm₁ : I m₁ := htick.checkFault.of_eq hm hcheck
    split at hok
    next r hr =>
      split at hok
      · cases hok
      next hnodir =>
        cases hok
        exact hlands m₁ _ hm₁ (.inr ⟨hr, Bool.not_eq_true _ ▸ hnodir⟩)
    next r hr =>
      cases hok
      exact hlands m₁ _ hm₁ (.inl hr)
    · cases hok
  · rintro _ rfl m hm
    unfold writeAt
    split
    next fault hfault => exact htick _ _ (hfile m _ hm (hleft m _ fault hm hfault))
    · exact htick _ _ (hfile m _ hm hcontent)

end Made

/-! ## A directory that is already there -/

/-- Nothing but the count of operations differs. -/
def SameDisk (m m' : Machine C) : Prop := m'.disk = m.disk ∧ m'.workdir = m.workdir

theorem SameDisk.sameOutside {m m' : Machine C} (h : SameDisk m m') (R : Location) :
    SameOutside R m m' := ⟨h.2, fun p _ => by rw [h.1]⟩

theorem SameDisk.ticks (m : Machine C) : Ticks (SameDisk m) := fun _ _ h => h

/-- The directories above a path that is found are there. -/
theorem lacksHead_of_found {m : Machine C} {dest : PosixPath} {R : Location}
    (h : lookup m true dest = .found R) : lacksHead m dest = false := by
  obtain ⟨absolute, names⟩ := dest
  rcases List.eq_nil_or_concat names with rfl | ⟨init, last, rfl⟩
  · simp only [lacksHead, ne_eq, not_true_eq_false, decide_false, Bool.and_false, Bool.false_and]
  · rw [List.concat_eq_append] at h ⊢
    by_cases hhead : absolute = true ∨ init ≠ []
    · obtain ⟨q, hq⟩ := lookup_head hhead fun e he => by
        rw [h] at he
        cases he
      simp only [lacksHead, exists?, PosixPath.head, List.dropLast_concat, hq, Bool.not_true,
        Bool.and_false]
    · rw [not_or, not_not, Bool.not_eq_true] at hhead
      simp only [lacksHead, List.dropLast_concat, hhead.1, hhead.2, ne_eq, not_true_eq_false,
        decide_false, Bool.or_false, Bool.false_and]

/-- Making a directory that is there changes nothing. -/
theorem Leads.makes {m : Machine C} {dest : PosixPath} {R : Location} (h : Leads m dest R) :
    Makes (SameDisk m) {dest} := by
  have hfound : ∀ m', SameDisk m m' → lookup m' true dest = .found R := fun m' hm => by
    rw [← h.found, lookup, lookup, hm.1, hm.2]
  refine ⟨SameDisk.ticks m, fun m' p q hm hp hq => ?_, fun m' p hm hp hlacks => ?_⟩
  · obtain rfl := Set.mem_singleton_iff.mp hp
    obtain ⟨r, hr⟩ := lookup_nofollow (hfound m' hm)
    rw [hr] at hq
    cases hq
  · obtain rfl := Set.mem_singleton_iff.mp hp
    rw [lacksHead_of_found (hfound m' hm)] at hlacks
    cases hlacks

/-- The path of a location stands at it. -/
theorem standsAt_located {m : Machine C} {R : Location} (hdir : m.disk.get? R = some .dir) :
    StandsAt m ⟨true, R⟩ R :=
  ⟨hdir, fun _ hm => lookup_located ((hm.2 R fun hne => hne.2 rfl).trans hdir) rfl⟩

/-- `makedirs` of a path that leads to a directory changes nothing. -/
theorem makedirs_leads {m : Machine C} {dest : PosixPath} {R : Location} (h : Leads m dest R)
    (fuel : Nat) : SameDisk m (makedirs fuel dest m).2 :=
  h.makes.makedirs fuel rfl m ⟨rfl, rfl⟩

/-! ## Reading a file -/

theorem checkFault_cases (m : Machine C) :
    (∃ n fault, m.faults n = some fault ∧
        checkFault m = (.error fault.error, { m with tick := m.tick + 1 })) ∨
      checkFault m = (.ok (), { m with tick := m.tick + 1 }) := by
  cases h : m.faults m.tick with
  | some fault => exact .inl ⟨m.tick, fault, h, by simp only [checkFault, h]⟩
  | none => exact .inr (by simp only [checkFault, h])

/-- A file that is found is opened, unless the operation meets a fault. -/
theorem openRead_found {m : Machine C} {p : PosixPath} {q : Location}
    (hfound : lookup m true p = .found q) (hnodir : m.disk.isDirAt q = false) :
    (∃ n fault, m.faults n = some fault ∧
        openRead p m = (.error fault.error, { m with tick := m.tick + 1 })) ∨
      openRead p m = (.ok q, { m with tick := m.tick + 1 }) := by
  rcases checkFault_cases m with ⟨n, fault, hfault, hcheck⟩ | hcheck
  · exact .inl ⟨n, fault, hfault, bind_of_error hcheck⟩
  · refine .inr ?_
    have hfound' : lookup { m with tick := m.tick + 1 } true p = .found q := hfound
    rw [openRead, bind_of_ok hcheck, readE]
    simp only [hfound', hnodir, Bool.false_eq_true, if_false]

/-- A file that is found is read, unless an operation meets a fault. -/
theorem readFile_found {m : Machine C} {p : PosixPath} {q : Location} {content : C}
    (hfound : lookup m true p = .found q) (hfile : m.disk.get? q = some (.file content)) :
    (∃ n fault, m.faults n = some fault ∧ (readFile p m).1 = .error fault.error) ∨
      (readFile p m).1 = .ok content := by
  have hnodir : m.disk.isDirAt q = false := by rw [Disk.isDirAt, hfile]
  rcases openRead_found hfound hnodir with ⟨n, fault, hfault, hopen⟩ | hopen
  · refine .inl ⟨n, fault, hfault, ?_⟩
    rw [readFile, bind_of_error hopen]
  · rw [readFile, bind_of_ok hopen]
    rcases checkFault_cases { m with tick := m.tick + 1 } with ⟨n, fault, hfault, hcheck'⟩ | hcheck'
    · refine .inl ⟨n, fault, hfault, ?_⟩
      rw [readAt, bind_of_error hcheck']
    · refine .inr ?_
      rw [readAt, bind_of_ok hcheck', readE, hfile]

/-- A file that is not found is not read. -/
theorem readFile_missing {m : Machine C} {p : PosixPath} (h : ∀ q, lookup m true p ≠ .found q)
    (content : C) : (readFile p m).1 ≠ .ok content := by
  intro hread
  have hok : readFile p m = (.ok content, (readFile p m).2) := Prod.ext hread rfl
  obtain ⟨q, m₁, hopen, -⟩ := bind_eq_ok.mp hok
  obtain ⟨_, m₂, hcheck, hread⟩ := bind_eq_ok.mp hopen
  have hsame : SameDisk m m₂ := (SameDisk.ticks m).checkFault.of_eq ⟨rfl, rfl⟩ hcheck
  obtain ⟨hanswer, -⟩ := readE_eq_ok.mp hread
  have hlook : lookup m₂ true p = lookup m true p := by rw [lookup, lookup, hsame.1, hsame.2]
  rw [hlook] at hanswer
  split at hanswer
  next q' hq => exact h q' hq
  · cases hanswer
  · cases hanswer

/-- Making directories leaves every entry in place. -/
def Extends (m m' : Machine C) : Prop :=
  ∀ p e, m.disk.get? p = some e → m'.disk.get? p = some e

theorem Extends.makes (m : Machine C) : Makes (Extends m) Set.univ where
  tick _ _ h := h
  dir m' p q hm _ hq r e he := by
    rw [Disk.get?_put_of_ne]
    · exact hm r e he
    · rintro rfl
      exact absurd (lookup_missing hq) (by rw [hm r e he]; exact nofun)
  head _ _ _ _ _ := Set.mem_univ _

theorem makedirs_extends {m : Machine C} (fuel : Nat) (p : PosixPath) :
    Keeps (Extends m) (makedirs fuel p) :=
  (Extends.makes m).makedirs fuel (Set.mem_univ p)

/-! ## Removing below an entry -/

section Removing

variable {m m' : Machine C} {q : Location}

/-- When the removal returns, nothing is left at or below the directory. -/
theorem removeTree_gone {fuel : Nat} (hne : q ≠ [])
    (hok : removeTree fuel q m = (.ok (), m')) {p : Location} (hp : q <+: p) :
    m'.disk.get? p = none := by
  cases fuel with
  | zero => cases hok
  | succ fuel =>
    obtain ⟨_, m₁, -, hok⟩ := bind_eq_ok.mp hok
    obtain ⟨_, m₂, -, hok⟩ := bind_eq_ok.mp hok
    obtain ⟨_, m₃, -, hend⟩ := bind_eq_ok.mp (mapError_eq_ok.mp hok)
    split at hend
    · split at hend
      · cases hend
        show (m₃.disk.prune q).get? p = none
        rw [Disk.get?_prune _ hne, if_pos hp]
      · cases hend
    · cases hend

end Removing

/-! ## Entries by their location -/

section Located

variable {m m' : Machine C}

/-- `rmtree` of a directory by its location removes it and nothing else. -/
theorem rmtree_located {depth : Nat} {p : Location} (hp : m.disk.get? p = some .dir) (hne : p ≠ [])
    (hok : rmtree depth ⟨true, p⟩ m = (.ok (), m')) :
    Confined p m m' ∧ ∀ q, p <+: q → m'.disk.get? q = none := by
  obtain ⟨q, m₁, hread, hok⟩ := bind_eq_ok.mp hok
  have hlook : lookup m false ⟨true, p⟩ = .found p := lookup_located hp rfl
  obtain ⟨hq, hm₁⟩ := Prod.mk.inj hread
  dsimp only at hq
  rw [hlook] at hq
  dsimp only at hq
  rw [hp] at hq
  cases hq
  rw [← hm₁] at hok
  refine ⟨?_, fun r hr => removeTree_gone hne hok hr⟩
  have hcuts : Cuts (Spares (Beside p) m) p := Spares.cuts fun q hq hpq => hq hpq
  exact .of_spares ((hcuts.removeTree depth (List.prefix_refl p)).of_eq (.refl _ m) hok)

end Located

/-! ## Changes below several entries of a directory -/

/-- From `m` to `m'` only what is at or below the entries of `R` with names in `S` changed, and no
link was added. -/
structure Within (R : Location) (S : Set String) (m m' : Machine C) : Prop where
  workdir : m'.workdir = m.workdir
  outside : ∀ p, (∀ s ∈ S, ¬ R ++ [s] <+: p) → m'.disk.get? p = m.disk.get? p
  links : ∀ p target, m'.disk.get? p = some (.link target) → m.disk.get? p = some (.link target)

namespace Within

variable {R : Location} {S S' : Set String} {m m' m'' : Machine C}

theorem refl (R : Location) (S : Set String) (m : Machine C) : Within R S m m :=
  ⟨rfl, fun _ _ => rfl, fun _ _ h => h⟩

theorem trans (h : Within R S m m') (h' : Within R S m' m'') : Within R S m m'' where
  workdir := h'.workdir.trans h.workdir
  outside p hp := (h'.outside p hp).trans (h.outside p hp)
  links p target ht := h.links p target (h'.links p target ht)

theorem mono (h : Within R S m m') (hS : S ⊆ S') : Within R S' m m' :=
  ⟨h.workdir, fun p hp => h.outside p fun s hs => hp s (hS hs), h.links⟩

/-- A change below one of the entries. -/
theorem of_confined {s : String} (hs : s ∈ S) (h : Confined (R ++ [s]) m m') : Within R S m m' :=
  ⟨h.workdir, fun p hp => h.outside p (hp s hs), h.links⟩

theorem of_sameDisk (h : SameDisk m m') : Within R S m m' :=
  ⟨h.2, fun p _ => by rw [h.1], fun p target ht => by rwa [h.1] at ht⟩

theorem sameOutside (h : Within R S m m') : SameOutside R m m' := by
  refine ⟨h.workdir, fun p hp => h.outside p fun s _ hpre => hp ?_⟩
  refine ⟨(List.prefix_append R [s]).trans hpre, ?_⟩
  rintro rfl
  have hlen := hpre.length_le
  rw [List.length_append, List.length_singleton] at hlen
  omega

/-- What is at or below another entry is as it was. -/
theorem same_at (h : Within R S m m') {name : String} (hname : name ∉ S) {p : Location}
    (hp : R ++ [name] <+: p) : m'.disk.get? p = m.disk.get? p := by
  refine h.outside p fun s hs hpre => hname ?_
  rwa [entry_prefix_inj hp hpre]

theorem noLinks (h : Within R S m m') {T : Location} (hlinks : NoLinks m T) : NoLinks m' T :=
  fun p hp target ht => hlinks p hp target (h.links p target ht)

theorem slot (h : Within R S m m') {dest : PosixPath} {s : String} (hstands : StandsAt m dest R)
    (hslot : Slot m dest R s) : Slot m' dest R s :=
  ⟨(hstands.mono h.sameOutside).leads, hslot.name, h.noLinks hslot.noLinks⟩

end Within

end ClawEngine.Posix
