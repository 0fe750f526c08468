import ClawEngine.Posix.Writes

/-!
# Zones that are left alone

A zone is a set of locations. `Spares Z` says of two machines that nothing in `Z` differs and that no
link was added; `Expands Z` says besides that every entry is still there, a file perhaps with another
content. Copying under a name keeps the second if no path through the name leads into the zone, and
removing a directory keeps the first if nothing in the zone is at or below it.
-/

set_option autoImplicit false

namespace ClawEngine.Posix

open ClawEngine.Core ClawEngine.Core.Act

variable {C : Type}

/-! ## Entries that stay -/

/-- Every entry of `d` is in `d'`, a file perhaps with another content. -/
def Kept (d d' : Disk C) : Prop :=
  ∀ p e, d.get? p = some e →
    d'.get? p = some e ∨ ∃ content content', e = .file content ∧
      d'.get? p = some (.file content')

namespace Kept

variable {d d' d'' : Disk C} {p : Location}

theorem refl (d : Disk C) : Kept d d := fun _ _ h => .inl h

theorem trans (h : Kept d d') (h' : Kept d' d'') : Kept d d'' := by
  intro p e he
  rcases h p e he with he' | ⟨content, content', rfl, he'⟩
  · exact h' p e he'
  · rcases h' p _ he' with hsame | ⟨_, last, -, hlast⟩
    · exact .inr ⟨content, content', rfl, hsame⟩
    · exact .inr ⟨content, last, rfl, hlast⟩

theorem dir (h : Kept d d') (hp : d.get? p = some .dir) : d'.get? p = some .dir := by
  rcases h p _ hp with hsame | ⟨_, _, hfile, -⟩
  · exact hsame
  · cases hfile

/-- A directory there now was one before, if anything was. -/
theorem dir_of_dir (h : Kept d d') {e : Entry C} (he : d.get? p = some e)
    (hp : d'.get? p = some .dir) : e = .dir := by
  rcases h p e he with hsame | ⟨_, content', -, hfile⟩
  · rw [hp] at hsame
    exact (Option.some.inj hsame).symm
  · rw [hp] at hfile
    cases hfile

theorem link (h : Kept d d') {target : String} (hp : d.get? p = some (.link target)) :
    d'.get? p = some (.link target) := by
  rcases h p _ hp with hsame | ⟨_, _, hfile, -⟩
  · exact hsame
  · cases hfile

theorem file (h : Kept d d') {content : C} (hp : d.get? p = some (.file content)) :
    ∃ content', d'.get? p = some (.file content') := by
  rcases h p _ hp with hsame | ⟨_, content', -, hfile⟩
  · exact ⟨content, hsame⟩
  · exact ⟨content', hfile⟩

theorem ways (h : Kept d d') : WaysIn d d' := ⟨fun _ => h.dir, fun _ _ => h.link⟩

theorem isSome (h : Kept d d') (hp : (d.get? p).isSome) : (d'.get? p).isSome := by
  obtain ⟨e, he⟩ := Option.isSome_iff_exists.mp hp
  rcases h p e he with hsame | ⟨_, content', -, hfile⟩
  · rw [hsame]
    rfl
  · rw [hfile]
    rfl

/-- A directory put where nothing is. -/
theorem put_dir (hp : d.get? p = none) : Kept d (d.put p .dir) := by
  intro q e he
  refine .inl ?_
  rw [Disk.get?_put_of_ne, he]
  rintro rfl
  rw [hp] at he
  cases he

/-- A file put where no link is. -/
theorem put_file (hp : ∀ target, d.get? p ≠ some (.link target)) (content : C) :
    Kept d (d.put p (.file content)) := by
  intro q e he
  by_cases hcan : d.CanPut p
  · by_cases hq : q = p
    · subst hq
      cases e with
      | dir => exact absurd (Disk.isDirAt_iff.mpr he) (by rw [hcan.noDir]; exact Bool.false_ne_true)
      | file before => exact .inr ⟨before, content, rfl, by rw [Disk.get?_put hcan, if_pos rfl]⟩
      | link target => exact absurd he (hp target)
    · exact .inl (by rw [Disk.get?_put_of_ne hq, he])
  · exact .inl (by rw [Disk.put, dif_neg hcan, he])

end Kept

/-! ## Zones -/

/-- From `m` to `m'` nothing in `Z` changed, and no link was added. -/
structure Spares (Z : Set Location) (m m' : Machine C) : Prop where
  workdir : m'.workdir = m.workdir
  same : ∀ p ∈ Z, m'.disk.get? p = m.disk.get? p
  links : ∀ p target, m'.disk.get? p = some (.link target) → m.disk.get? p = some (.link target)

/-- And every entry is still there. -/
structure Expands (Z : Set Location) (m m' : Machine C) : Prop extends Spares Z m m' where
  kept : Kept m.disk m'.disk

variable {Z Z' : Set Location} {m m' m'' : Machine C}

namespace Spares

theorem refl (Z : Set Location) (m : Machine C) : Spares Z m m :=
  ⟨rfl, fun _ _ => rfl, fun _ _ h => h⟩

theorem trans (h : Spares Z m m') (h' : Spares Z m' m'') : Spares Z m m'' where
  workdir := h'.workdir.trans h.workdir
  same p hp := (h'.same p hp).trans (h.same p hp)
  links p target ht := h.links p target (h'.links p target ht)

theorem mono (h : Spares Z m m') (hZ : Z' ⊆ Z) : Spares Z' m m' :=
  ⟨h.workdir, fun p hp => h.same p (hZ hp), h.links⟩

/-- Another machine on the same disk. -/
theorem of_disk (hdisk : m'.disk = m.disk) (hwork : m'.workdir = m.workdir) : Spares Z m m' :=
  ⟨hwork, fun p _ => by rw [hdisk], fun p target h => by rwa [hdisk] at h⟩

theorem ticks (Z : Set Location) (m : Machine C) : Ticks (Spares Z m) :=
  fun _ _ h => ⟨h.workdir, h.same, h.links⟩

theorem put {q : Location} {e : Entry C} (h : Spares Z m m') (hq : q ∉ Z)
    (he : e.isLink = false) : Spares Z m { m' with disk := m'.disk.put q e } := by
  have hne : ∀ p, p ≠ q → (m'.disk.put q e).get? p = m'.disk.get? p := fun p hp =>
    Disk.get?_put_of_ne hp e
  refine ⟨h.workdir, fun p hp => ?_, fun p target ht => ?_⟩
  · show (m'.disk.put q e).get? p = _
    rw [hne p, h.same p hp]
    rintro rfl
    exact hq hp
  · refine h.links p target ?_
    change (m'.disk.put q e).get? p = _ at ht
    by_cases hcan : m'.disk.CanPut q
    · by_cases hpq : p = q
      · rw [Disk.get?_put hcan, if_pos hpq, Option.some.injEq] at ht
        rw [ht] at he
        cases he
      · rwa [hne p hpq] at ht
    · rwa [Disk.put, dif_neg hcan] at ht

theorem prune {q : Location} (h : Spares Z m m') (hq : ∀ p ∈ Z, ¬ q <+: p) :
    Spares Z m { m' with disk := m'.disk.prune q } := by
  refine ⟨h.workdir, fun p hp => ?_, fun p target ht => ?_⟩
  · refine (Disk.get?_prune_of_apart _ (hq p hp)).trans (h.same p hp)
  · exact h.links p target (Disk.get?_of_prune ht)

/-- Removing at or below `T` spares what is not there. -/
theorem cuts {T : Location} (hT : ∀ p ∈ Z, ¬ T <+: p) : Cuts (Spares Z m) T where
  tick := ticks Z m
  prune _ _ h hq := h.prune fun p hp hqp => hT p hp (hq.trans hqp)

end Spares

namespace Expands

theorem refl (Z : Set Location) (m : Machine C) : Expands Z m m := ⟨.refl Z m, .refl _⟩

theorem trans (h : Expands Z m m') (h' : Expands Z m' m'') : Expands Z m m'' :=
  ⟨h.toSpares.trans h'.toSpares, h.kept.trans h'.kept⟩

theorem mono (h : Expands Z m m') (hZ : Z' ⊆ Z) : Expands Z' m m' :=
  ⟨h.toSpares.mono hZ, h.kept⟩

/-- Another machine on the same disk. -/
theorem of_disk (hdisk : m'.disk = m.disk) (hwork : m'.workdir = m.workdir) : Expands Z m m' :=
  ⟨.of_disk hdisk hwork, by rw [hdisk]; exact .refl _⟩

theorem leads {dest : PosixPath} {R : Location} (h : Expands Z m m') (hroot : Leads m dest R) :
    Leads m' dest R := hroot.ways h.kept.ways h.workdir

end Expands

/-! ## Everything beside some entries -/

/-- What is not at or below `T`. -/
def Beside (T : Location) : Set Location := {p | ¬ T <+: p}

/-- What is not at or below one of the entries of `R` with names in `S`. -/
def BesideAll (R : Location) (S : Set String) : Set Location := {p | ∀ s ∈ S, ¬ R ++ [s] <+: p}

/-- What is not below `R`; `R` itself is not. -/
def Outside (R : Location) : Set Location := {p | ¬ (R <+: p ∧ p ≠ R)}

/-- What is at or below an entry of `R` is below `R`. -/
theorem below_entry {R p : Location} {s : String} (h : R ++ [s] <+: p) : R <+: p ∧ p ≠ R := by
  refine ⟨(List.prefix_append R [s]).trans h, ?_⟩
  rintro rfl
  have hlen := h.length_le
  rw [List.length_append, List.length_singleton] at hlen
  omega

/-- What is at or below one entry is at or below no other. -/
theorem entry_prefix_inj {R p : Location} {s s' : String} (h : R ++ [s] <+: p)
    (h' : R ++ [s'] <+: p) : s = s' := by
  have hpre := List.prefix_of_prefix_length_le h h' (by simp only [List.length_append,
    List.length_singleton, Nat.le_refl])
  have heq := hpre.eq_of_length (by simp only [List.length_append, List.length_singleton])
  exact List.singleton_inj.mp (List.append_cancel_left heq)

theorem outside_subset_beside (R : Location) (s : String) : Outside R ⊆ Beside (R ++ [s]) :=
  fun _ hp hs => hp (below_entry hs)

theorem outside_subset_besideAll (R : Location) (S : Set String) : Outside R ⊆ BesideAll R S :=
  fun _ hp _ _ hs => hp (below_entry hs)

theorem besideAll_subset_beside {R : Location} {S : Set String} {s : String} (hs : s ∈ S) :
    BesideAll R S ⊆ Beside (R ++ [s]) := fun _ hp => hp s hs

/-- What is at or below another entry is beside the entries. -/
theorem mem_besideAll {R p : Location} {S : Set String} {name : String} (hname : name ∉ S)
    (hp : R ++ [name] <+: p) : p ∈ BesideAll R S := by
  intro s hs hpre
  rw [entry_prefix_inj hp hpre] at hname
  exact hname hs

/-! ## Writing beside a zone -/

/-- The path of names below a path. -/
def PosixPath.descend (p : PosixPath) (names : List String) : PosixPath :=
  ⟨p.absolute, p.names ++ names⟩

theorem descend_nil (p : PosixPath) : p.descend [] = p := by
  rw [PosixPath.descend, List.append_nil]

theorem descend_child (p : PosixPath) (names : List String) (name : String) :
    (p.descend names).child name = p.descend (names ++ [name]) := by
  simp only [PosixPath.descend, PosixPath.child, List.append_assoc]

/-- The paths through the name `s` in `dest`. -/
def Through (dest : PosixPath) (s : String) : Set PosixPath :=
  {p | ∃ names : List String, (∀ name ∈ names, isEntryName name = true) ∧
    p = dest.descend (s :: names)}

/-- On the machines of `J`, no path through `s` puts anything into `Z`. -/
def Safe (J : Machine C → Prop) (Z : Set Location) (dest : PosixPath) (s : String) : Prop :=
  ∀ m, J m → ∀ p ∈ Through dest s, ∀ q, PutsAt m p q → q ∉ Z

theorem child_through (dest : PosixPath) (s : String) : dest.child s ∈ Through dest s :=
  ⟨[], nofun, rfl⟩

theorem through_snoc {dest p : PosixPath} {s name : String} (hp : p ∈ Through dest s)
    (hname : isEntryName name = true) : p.child name ∈ Through dest s := by
  obtain ⟨names, hnames, rfl⟩ := hp
  refine ⟨names ++ [name], fun n hn => ?_, descend_child ..⟩
  rcases List.mem_append.mp hn with hn | hn
  · exact hnames n hn
  · rwa [List.mem_singleton.mp hn]

/-- What is opened for writing through an entry's name is no link. -/
theorem opensAt_plain {dest p : PosixPath} {s : String} {q : Location} (hs : isEntryName s = true)
    (hp : p ∈ Through dest s) (hq : OpensAt m p q) (target : String) :
    m.disk.get? q ≠ some (.link target) := by
  rcases hq with hmissing | ⟨hfound, -⟩
  · rw [lookup_missing hmissing]
    exact nofun
  · obtain ⟨names, hnames, rfl⟩ := hp
    rcases List.eq_nil_or_concat names with rfl | ⟨init, last, rfl⟩
    · exact lookup_plain (p := dest) hs hfound target
    · rw [List.concat_eq_append] at hnames hfound
      rw [← List.cons_append, ← descend_child] at hfound
      exact lookup_plain (hnames last (List.mem_append_right _ List.mem_cons_self)) hfound target

/-- **Writing through `s` beside a zone**, in a directory `R` that stays. -/
theorem Safe.writes {dest : PosixPath} {R : Location} {s : String} (hroot : Leads m dest R)
    (hs : isEntryName s = true) (h : Safe (Expands Z m) Z dest s) :
    Writes (Expands Z m) (Through dest s)
      fun q => q ∉ Z ∧ ∀ target, m.disk.get? q ≠ some (.link target) where
  tick _ _ hm := hm.trans (.of_disk rfl rfl)
  dir m' p q hm hp hq := ⟨hm.toSpares.put (h m' hm p hp q (.inl hq)) rfl,
    hm.kept.trans (.put_dir (lookup_missing hq))⟩
  lands m' p q hm hp hq := by
    refine ⟨h m' hm p hp q (.inr hq), fun target hlink => ?_⟩
    exact opensAt_plain hs hp hq target (hm.kept.link hlink)
  file m' q content hm hq := by
    refine ⟨hm.toSpares.put hq.1 rfl, hm.kept.trans (.put_file (fun target hlink => ?_) content)⟩
    exact hq.2 target (hm.links q target hlink)
  head m' p hm hp hlacks := by
    obtain ⟨names, hnames, rfl⟩ := hp
    by_cases hnil : names = []
    · subst hnil
      have hhead : (dest.descend [s]).head = dest := by
        simp only [PosixPath.head, PosixPath.descend, List.dropLast_concat]
      have hthere : exists? m' dest = true := by rw [exists?, (hm.leads hroot).found]
      simp only [lacksHead, hhead, hthere, Bool.not_true, Bool.and_false,
        Bool.false_eq_true] at hlacks
    · refine ⟨names.dropLast, fun n hn => hnames n (List.dropLast_subset _ hn), ?_⟩
      simp only [PosixPath.head, PosixPath.descend,
        List.dropLast_append_of_ne_nil (List.cons_ne_nil s names),
        List.dropLast_cons_of_ne_nil hnil]
  child _ _ hp hname := through_snoc hp hname

/-! ## Removing -/

/-- From `m` to `m'` entries were removed, and nothing else happened. -/
structure Shrinks (m m' : Machine C) : Prop where
  workdir : m'.workdir = m.workdir
  entries : ∀ p e, m'.disk.get? p = some e → m.disk.get? p = some e

namespace Shrinks

theorem refl (m : Machine C) : Shrinks m m := ⟨rfl, fun _ _ h => h⟩

theorem ways (h : Shrinks m m') : WaysIn m'.disk m.disk :=
  ⟨fun p => h.entries p _, fun p _ => h.entries p _⟩

theorem cuts (m : Machine C) (T : Location) : Cuts (Shrinks m) T where
  tick _ _ h := ⟨h.workdir, h.entries⟩
  prune _ _ h _ := ⟨h.workdir, fun p e he => h.entries p e (Disk.get?_of_prune he)⟩

end Shrinks

end ClawEngine.Posix
