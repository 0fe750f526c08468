import ClawEngine.Posix.Copies

/-!
# What copying leaves, with links anywhere

A directory is copied to an entry of a directory, through whatever links are there. No entry goes
away meanwhile; and where the copy returns, a file of the source is found under its name in the
copy, or under its name twice where a directory stood in its place, since `shutil.copy2` copies into
a directory.
-/

set_option autoImplicit false

namespace ClawEngine.Posix

open ClawEngine.Core ClawEngine.Core.Act

variable {C : Type}

/-! ## A missing name can be made -/

section Missing

variable {d : Disk C} {follow : Bool}

/-- A name that no system call would refuse. -/
theorem isEntryName_of_sliced {name : String} (h : Sliced name) (hdot : name ≠ ".")
    (hup : name ≠ "..") : isEntryName name = true := by
  have hslash : name.toList.contains '/' = false := by
    rw [← Bool.not_eq_true, List.contains_iff_mem]
    exact h.2
  simp only [isEntryName, hslash, Bool.not_false, Bool.and_true, Bool.and_eq_true,
    decide_eq_true_eq]
  exact ⟨⟨h.1, hdot⟩, hup⟩

theorem sliced_of_isEntryName {name : String} (h : isEntryName name = true) : Sliced name := by
  simp only [isEntryName, Bool.and_eq_true, decide_eq_true_eq, Bool.not_eq_true'] at h
  refine ⟨h.1.1.1, fun hmem => ?_⟩
  rw [List.contains_iff_mem.mpr hmem] at h
  cases h.2

/-- Where a walk from a directory finds a name missing, it can be put. -/
theorem walkWith_canPut {onLink : Location → List String → Lookup} {cur p : Location}
    {names : List String}
    (hlink : ∀ start todo, d.get? start = some .dir → (∀ name ∈ todo, Sliced name) →
      onLink start todo = .missing p → d.CanPut p)
    (hcur : d.get? cur = some .dir) (hnames : ∀ name ∈ names, Sliced name)
    (h : walkWith d follow onLink cur names = .missing p) : d.CanPut p := by
  induction names generalizing cur with
  | nil => cases h
  | cons name rest ih =>
    have hrest : ∀ n ∈ rest, Sliced n := fun n hn => hnames n (List.mem_cons_of_mem _ hn)
    rw [walkWith] at h
    split at h
    · exact ih hcur hrest h
    next hdot =>
    split at h
    next hup =>
      refine ih ?_ hrest h
      rcases List.eq_nil_or_concat cur with rfl | ⟨q, x, rfl⟩
      · exact hcur
      · rw [List.concat_eq_append] at hcur ⊢
        rw [List.dropLast_concat]
        exact (Disk.parent_dir hcur).1
    next hup =>
    split at h
    next hnone =>
      split at h
      · cases h
        have hname := isEntryName_of_sliced (hnames name List.mem_cons_self) hdot hup
        exact Disk.canPut_of_missing hname hcur hnone
      · cases h
    next hdir => exact ih hdir hrest h
    next => split at h <;> cases h
    next target hl =>
      split at h
      · cases h
      · refine hlink _ _ ?_ (fun n hn => ?_) h
        · unfold startOf
          split
          · exact d.get?_root
          · exact hcur
        · rcases List.mem_append.mp hn with hn | hn
          · exact sliced_of_mem_namesOf hn
          · exact hrest n hn

theorem walk_canPut {b : Nat} {cur p : Location} {names : List String}
    (hcur : d.get? cur = some .dir) (hnames : ∀ name ∈ names, Sliced name)
    (h : walk d follow b cur names = .missing p) : d.CanPut p := by
  induction b generalizing cur names with
  | zero => exact walkWith_canPut (fun _ _ _ _ hl => by cases hl) hcur hnames h
  | succ b ih =>
    exact walkWith_canPut (fun _ _ hdir hnames hl => ih hdir hnames hl) hcur hnames h

/-- Below a directory, what is missing can be put. -/
theorem GoesOn.canPut {m : Machine C} {dest : PosixPath} {R q : Location} {names : List String}
    (h : GoesOn m dest R) (hnil : names ≠ []) (hnames : ∀ name ∈ names, isEntryName name = true)
    (hmissing : lookup m follow (dest.descend names) = .missing q) : m.disk.CanPut q := by
  obtain ⟨b, hb⟩ := h.walks follow names hnil
  rw [hb] at hmissing
  exact walk_canPut h.dir (fun name hname => sliced_of_isEntryName (hnames name hname)) hmissing

/-- Below a directory, what is found is an entry and no link. -/
theorem GoesOn.entry {m : Machine C} {dest : PosixPath} {R q : Location} {names : List String}
    (h : GoesOn m dest R) (hnil : names ≠ [])
    (hfound : lookup m true (dest.descend names) = .found q) :
    ∃ e, m.disk.get? q = some e ∧ e.isLink = false := by
  obtain ⟨b, hb⟩ := h.walks true names hnil
  rw [hb] at hfound
  exact walk_entry (.inl h.dir) hfound

end Missing

/-! ## Files that arrive -/

/-- The path leads to a file. -/
def Arrived (m : Machine C) (p : PosixPath) : Prop :=
  ∃ q content, lookup m true p = .found q ∧ m.disk.get? q = some (.file content)

/-- A file in a directory, under its name or, where a directory has that name, in it. -/
def ArrivedIn (m : Machine C) (dst : PosixPath) (name : String) : Prop :=
  Arrived m (dst.child name) ∨ Arrived m ((dst.child name).child name)

section Arrivals

variable {m m' : Machine C} {dest p src : PosixPath} {R : Location} {s name : String}

/-- It stays while no entry goes away. -/
theorem Arrived.mono (h : Arrived m p) (he : Expands ∅ m m') : Arrived m' p := by
  obtain ⟨q, content, hfound, hfile⟩ := h
  obtain ⟨content', hkept⟩ := he.kept.file hfile
  exact ⟨q, content', lookup_ways he.kept.ways he.workdir (fun _ _ => ⟨content', hkept⟩) hfound,
    hkept⟩

theorem ArrivedIn.mono {dst : PosixPath} (h : ArrivedIn m dst name) (he : Expands ∅ m m') :
    ArrivedIn m' dst name := h.imp (·.mono he) (·.mono he)

theorem arrived_iff_isfile (hname : isEntryName name = true) :
    isfile m (p.child name) = true ↔ Arrived m (p.child name) := by
  rw [isfile_iff]
  constructor
  · rintro ⟨q, hfound, hnodir⟩
    obtain ⟨e, he, hlink⟩ := lookup_entry hname hfound
    cases e with
    | dir =>
      rw [Disk.isDirAt_iff.mpr he] at hnodir
      cases hnodir
    | file content => exact ⟨q, content, hfound, he⟩
    | link target => cases hlink
  · rintro ⟨q, content, hfound, hfile⟩
    exact ⟨q, hfound, by rw [Disk.isDirAt, hfile]⟩

/-- A file that is reached apart from some places stays while these change. -/
theorem Arrived.sameOff {H : Set Location} (h : Arrived m (p.child name))
    (hname : isEntryName name = true) (hclear : ClearOf H m (p.child name))
    (hm : SameOff H m m') : Arrived m' (p.child name) := by
  obtain ⟨q, content, hfound, hfile⟩ := h
  refine ⟨q, content, (hclear m' hm).trans hfound, ?_⟩
  rw [hm.same q (hclear.found_mem hname hfound), hfile]

/-- Making a path makes directories, and removes nothing. -/
theorem makedirs_expands (m : Machine C) (fuel : Nat) (p : PosixPath) :
    Expands ∅ m (makedirs fuel p m).2 := by
  have hmakes : Makes (Expands ∅ m) Set.univ :=
    ⟨fun _ _ h => h.trans (.of_disk rfl rfl),
      fun m' _ q h _ hq => ⟨h.toSpares.put (Set.notMem_empty q) rfl,
        h.kept.trans (.put_dir (lookup_missing hq))⟩, fun _ _ _ _ _ => Set.mem_univ _⟩
  exact hmakes.makedirs fuel (Set.mem_univ p) m (.refl ∅ m)

/-- Making a path only makes directories. -/
theorem makedirs_onlyDirs (m : Machine C) (fuel : Nat) (p : PosixPath) (q : Location) :
    (makedirs fuel p m).2.disk.get? q = m.disk.get? q ∨
      m.disk.get? q = none ∧ (makedirs fuel p m).2.disk.get? q = some .dir := by
  have hmakes : Makes (fun m' : Machine C => m'.disk.get? q = m.disk.get? q ∨
      m.disk.get? q = none ∧ m'.disk.get? q = some .dir) Set.univ := by
    refine ⟨fun _ _ h => h, fun m' _ r h _ hr => ?_, fun _ _ _ _ _ => Set.mem_univ _⟩
    dsimp only
    by_cases hcan : m'.disk.CanPut r
    · rw [Disk.get?_put hcan]
      split
      next heq =>
        rw [heq, lookup_missing hr] at h
        refine .inr ⟨?_, rfl⟩
        rw [heq]
        exact h.elim Eq.symm And.left
      next => exact h
    · rwa [Disk.put, dif_neg hcan]
  exact hmakes.makedirs fuel (Set.mem_univ p) m (.inl rfl)

/-- Nothing goes away while something is written through an entry's name. -/
theorem writes_through (hroot : Leads m dest R) (hs : isEntryName s = true) :
    Writes (Expands ∅ m) (Through dest s)
      fun q => q ∉ (∅ : Set Location) ∧ ∀ target, m.disk.get? q ≠ some (.link target) :=
  Safe.writes hroot hs fun _ _ _ _ q _ => Set.notMem_empty q

variable [Inhabited C]

/-- A file that was opened for writing is found. -/
theorem openWrite_arrives {q : Location} (hroot : Leads m dest R) (hp : p ∈ Through dest s)
    (hs : isEntryName s = true) (hok : openWrite p m = (.ok q, m')) : Arrived m' p := by
  obtain ⟨_, m₁, hcheck, hopen⟩ := bind_eq_ok.mp hok
  have hexpands : Expands ∅ m m₁ :=
    (writes_through hroot hs).tick.checkFault.of_eq (.refl ∅ m) hcheck
  have hgoes := (hexpands.leads hroot).goesOn
  obtain ⟨names, hnames, rfl⟩ := hp
  have hnil : s :: names ≠ [] := List.cons_ne_nil s names
  have hall : ∀ name ∈ s :: names, isEntryName name = true := by
    intro name hname
    rcases List.mem_cons.mp hname with rfl | hname
    · exact hs
    · exact hnames name hname
  split at hopen
  next r hr =>
    split at hopen
    · cases hopen
    next hnodir =>
      cases hopen
      obtain ⟨e, he, hlink⟩ := hgoes.entry hnil hr
      cases e with
      | dir => exact absurd (Disk.isDirAt_iff.mpr he) hnodir
      | link target => cases hlink
      | file content =>
        have hkept : Kept m₁.disk (m₁.disk.put q (.file default)) :=
          .put_file (fun target ht => by rw [he] at ht; cases ht) default
        have hfile : (m₁.disk.put q (.file default)).get? q = some (.file default) := by
          rw [Disk.get?_put (Disk.canPut_of_file he), if_pos rfl]
        exact ⟨q, default, lookup_ways hkept.ways rfl (fun _ _ => ⟨default, hfile⟩) hr, hfile⟩
  next r hr =>
    cases hopen
    have hcan := hgoes.canPut hnil hall hr
    refine ⟨q, default, lookup_put hcan rfl hr, ?_⟩
    show (m₁.disk.put q (.file default)).get? q = _
    rw [Disk.get?_put hcan, if_pos rfl]
  · cases hopen

/-- So is one that was copied. -/
theorem copyfile_arrives (hroot : Leads m dest R) (hp : p ∈ Through dest s)
    (hs : isEntryName s = true) (hok : copyfile src p m = (.ok (), m')) : Arrived m' p := by
  obtain ⟨same, m₁, hread, hok⟩ := bind_eq_ok.mp hok
  obtain ⟨-, rfl⟩ := read_eq_ok.mp hread
  split at hok
  · cases hok
  obtain ⟨r, m₁, hsrc, hok⟩ := bind_eq_ok.mp (mapError_eq_ok.mp hok)
  obtain ⟨q, m₂, hopen, hok⟩ := bind_eq_ok.mp hok
  obtain ⟨content, m₃, hcontent, hwrite⟩ := bind_eq_ok.mp hok
  have hwrites := writes_through hroot hs
  have hexpands₁ : Expands ∅ m m₁ := (hwrites.tick.openRead src).of_eq (.refl ∅ m) hsrc
  have hroot₁ := hexpands₁.leads hroot
  have hwrites₁ := writes_through hroot₁ hs
  have hexpands₂ : Expands ∅ m₁ m₂ :=
    (hwrites₁.toFills.openWrite hp).of_eq (.refl ∅ m₁) hopen
  obtain ⟨-, hnolink⟩ := hwrites₁.toFills.openWrite_lands hp (.refl ∅ m₁) hopen
  have hwrites₂ := writes_through (hexpands₂.leads hroot₁) hs
  have hexpands₃ : Expands ∅ m₂ m₃ := (hwrites₂.tick.readAt r).of_eq (.refl ∅ m₂) hcontent
  have hend : Expands ∅ m₂ m' := (hwrites₂.toFills.writeAt ⟨Set.notMem_empty q,
    fun target hlink => hnolink target (hexpands₂.links q target hlink)⟩ content).of_eq
      hexpands₃ hwrite
  exact (openWrite_arrives hroot₁ hp hs hopen).mono hend

theorem copy2_arrives {dst : PosixPath} (hroot : Leads m dest R) (hs : isEntryName s = true)
    (hdst : dst ∈ Through dest s) (hname : isEntryName name = true)
    (hok : copy2 (src.child name) (dst.child name) m = (.ok (), m')) : ArrivedIn m' dst name := by
  obtain ⟨target, m₁, hread, hok⟩ := bind_eq_ok.mp hok
  obtain ⟨rfl, rfl⟩ := read_eq_ok.mp hread
  obtain ⟨_, m₂, hcopy, hstat⟩ := bind_eq_ok.mp hok
  have hsame : SameDisk m₂ m' :=
    ((SameDisk.ticks m₂).copystat _ _).of_eq ⟨rfl, rfl⟩ (mapError_eq_ok.mp hstat)
  have hexpands : Expands ∅ m₂ m' := .of_disk hsame.1 hsame.2
  have hchild := through_snoc hdst hname
  rw [PosixPath.basename_child] at hcopy
  split at hcopy
  · exact .inr ((copyfile_arrives hroot (through_snoc hchild hname) hs hcopy).mono hexpands)
  · exact .inl ((copyfile_arrives hroot hchild hs hcopy).mono hexpands)

end Arrivals

/-! ## A file of a directory that is copied -/

section Trees

variable {m m' : Machine C} {dest src dst : PosixPath} {R : Location} {s name : String}

/-- A directory in which a file is found lists it as a file or a link. -/
theorem mem_listing_of_arrived {q : Location} (hsrc : Leads m src q)
    (hname : isEntryName name = true) (hfile : Arrived m (src.child name)) :
    (name, .file) ∈ listing m.disk q ∨ (name, .link) ∈ listing m.disk q := by
  obtain ⟨r, content, hfound, hcontent⟩ := hfile
  have hlook := hsrc.goesOn.lookup_child hname
  cases hentry : m.disk.get? (q ++ [name]) with
  | none =>
    have hplain := hsrc.goesOn.lookup_plain hname fun target hlink => by
      rw [hentry] at hlink
      cases hlink
    rw [if_pos hentry] at hplain
    cases hfound.symm.trans hplain
  | some e =>
    have hlisted := mem_listing hentry
    cases e with
    | dir =>
      cases hfound.symm.trans (hsrc.goesOn.located (List.cons_ne_nil name []) hentry rfl true)
      rw [hentry] at hcontent
      cases hcontent
    | file before => exact .inl hlisted
    | link target => exact .inr hlisted

variable [Inhabited C]

/-- The copy of an entry that is a file, or a link to one. -/
theorem copyEntry_arrives {copyDir : PosixPath → PosixPath → Fs C Unit} {kind : EntryKind}
    (hroot : Leads m dest R) (hs : isEntryName s = true) (hdst : dst ∈ Through dest s)
    (hname : isEntryName name = true) (hfile : Arrived m (src.child name)) (hkind : kind ≠ .dir)
    (hok : copyEntry copyDir src dst (name, kind) m = (.ok (), m')) : ArrivedIn m' dst name := by
  cases kind with
  | dir => exact absurd rfl hkind
  | file => exact copy2_arrives hroot hs hdst hname hok
  | link =>
    obtain ⟨_, m₁, hread, hok⟩ := bind_eq_ok.mp hok
    obtain ⟨-, rfl⟩ := readE_eq_ok.mp (mapError_eq_ok.mp hread)
    obtain ⟨isDir, m₁, hread, hok⟩ := bind_eq_ok.mp hok
    obtain ⟨hanswer, rfl⟩ := readE_eq_ok.mp (mapError_eq_ok.mp hread)
    obtain ⟨q, content, hfound, hcontent⟩ := hfile
    rw [hfound] at hanswer
    obtain rfl : false = isDir := by
      rw [← Except.ok.inj hanswer, Disk.isDirAt, hcontent]
    exact copy2_arrives hroot hs hdst hname hok

/-- **The loop over the entries**, when it collects no error. -/
theorem copyEntries_arrives {fuel : Nat} {kind : EntryKind} (hs : isEntryName s = true)
    (hdst : dst ∈ Through dest s) (hname : isEntryName name = true) (hkind : kind ≠ .dir)
    (entries : List (String × EntryKind)) (hmem : (name, kind) ∈ entries)
    (hnames : ∀ entry ∈ entries, isEntryName entry.1 = true)
    (hroot : Leads m dest R) (hfile : Arrived m (src.child name))
    (hok : copyEntries (copytree fuel) src dst entries m = (.ok [], m')) :
    ArrivedIn m' dst name := by
  induction entries generalizing m with
  | nil => cases hmem
  | cons entry entries ih =>
    obtain ⟨m₁, hentry, hrest⟩ := (copyEntries_cons_nil (copytree_raises fuel)).mp hok
    have hrestNames := fun e he => hnames e (List.mem_cons_of_mem _ he)
    have hwrites := writes_through hroot hs
    have hexpands : Expands ∅ m m₁ := (hwrites.copyEntry
      (fun src _ hdst => hwrites.copytree fuel src hdst) src hdst entry
      (hnames entry List.mem_cons_self)).of_eq (.refl ∅ m) hentry
    rcases List.mem_cons.mp hmem with rfl | hmem
    · have hwrites₁ := writes_through (hexpands.leads hroot) hs
      have hend : Expands ∅ m₁ m' := (hwrites₁.copyEntries
        (fun src _ hdst => hwrites₁.copytree fuel src hdst) src hdst entries hrestNames).of_eq
          (.refl ∅ m₁) hrest
      exact (copyEntry_arrives hroot hs hdst hname hfile hkind hentry).mono hend
    · exact ih hmem hrestNames (hexpands.leads hroot) (hfile.mono hexpands) hrest

/-- **A file of a directory arrives in its copy.** -/
theorem copytree_arrives (hroot : Leads m dest R) (hs : isEntryName s = true) {fuel : Nat}
    (hname : isEntryName name = true) (hfile : Arrived m (src.child name))
    (hok : copytree fuel src (dest.child s) m = (.ok (), m')) :
    ArrivedIn m' (dest.child s) name := by
  cases fuel with
  | zero => cases hok
  | succ fuel =>
    obtain ⟨q, m₁, m₂, hsrc, hmade, hcopied, hstat⟩ := copytree_eq_ok.mp hok
    have hdst := child_through dest s
    have hexpands : Expands ∅ m m₁ :=
      ((writes_through hroot hs).toMakes.makedirs _ hdst).of_eq (.refl ∅ m) hmade
    have hroot₁ := hexpands.leads hroot
    have hsame : SameDisk m₂ m' := ((SameDisk.ticks m₂).copystat _ _).of_eq ⟨rfl, rfl⟩ hstat
    refine ArrivedIn.mono (m := m₂) ?_ (.of_disk hsame.1 hsame.2)
    have hnames : ∀ entry ∈ listing m.disk q, isEntryName entry.1 = true := fun _ hentry =>
      listing_names hentry
    rcases mem_listing_of_arrived hsrc hname hfile with hmem | hmem
    · exact copyEntries_arrives hs hdst hname (by decide) _ hmem hnames hroot₁
        (hfile.mono hexpands) hcopied
    · exact copyEntries_arrives hs hdst hname (by decide) _ hmem hnames hroot₁
        (hfile.mono hexpands) hcopied

end Trees

end ClawEngine.Posix
