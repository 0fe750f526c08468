import ClawEngine.Posix.Writes

/-!
# What copied content is

The rules of `Posix/Writes.lean` are for invariants that survive a file of any content. Here the
content counts: an invariant that survives only files with a **good** content survives copying, if
what is read of the sources is good. Sources are the paths of a set that is closed under going down;
a source is opened at a location that may be read, and reading there gives a good content.
-/

set_option autoImplicit false

namespace ClawEngine.Posix

open ClawEngine.Core ClawEngine.Core.Act

variable {C : Type} [Inhabited C]

/-- `I` survives directories that are made, and files with a good content (`G`) written at locations
with `P`; the sources of `S` are read at locations with `L`, where the content is good. -/
structure Carries (I : Machine C → Prop) (S : Set PosixPath) (P L : Location → Prop)
    (G : C → Prop) : Prop where
  tick : Ticks I
  dir : ∀ m p q, I m → lookup m false p = .missing q → I { m with disk := m.disk.put q .dir }
  lands : ∀ m (p : PosixPath) name q, I m → isEntryName name = true →
    OpensAt m (p.child name) q → P q
  file : ∀ m q content, I m → P q → G content →
    I { m with disk := m.disk.put q (.file content) }
  child : ∀ (p : PosixPath) name, p ∈ S → isEntryName name = true → p.child name ∈ S
  opens : ∀ m p q, I m → p ∈ S → lookup m true p = .found q → L q
  reads : ∀ m q content, I m → L q → m.disk.get? q = some (.file content) → G content
  dropped : G default
  left : ∀ m n fault, I m → m.faults n = some fault → G fault.left

namespace Carries

variable {I : Machine C → Prop} {S : Set PosixPath} {P L : Location → Prop} {G : C → Prop}
  {src dst : PosixPath} {name : String} {copyDir : PosixPath → PosixPath → Fs C Unit}

/-- Directories may be made anywhere. -/
theorem makes (h : Carries I S P L G) : Makes I Set.univ where
  tick := h.tick
  dir m p q hm _ hq := h.dir m p q hm hq
  head _ _ _ _ _ := Set.mem_univ _

/-! ## Writing -/

theorem writeAt (h : Carries I S P L G) {q : Location} (hq : P q) {content : C}
    (hcontent : G content) : Keeps I (writeAt q content) := by
  intro m hm
  unfold Posix.writeAt
  split
  next fault hfault => exact h.tick _ _ (h.file m q _ hm hq (h.left m _ fault hm hfault))
  · exact h.tick _ _ (h.file m q _ hm hq hcontent)

theorem openWrite (h : Carries I S P L G) (hname : isEntryName name = true) :
    Keeps I (openWrite (dst.child name)) := by
  refine h.tick.checkFault.bind fun _ m hm => ?_
  split
  next q hq =>
    split
    · exact hm
    next hfile =>
      rw [Bool.not_eq_true] at hfile
      exact h.file m q _ hm (h.lands m dst name q hm hname (.inr ⟨hq, hfile⟩)) h.dropped
  next q hq => exact h.file m q _ hm (h.lands m dst name q hm hname (.inl hq)) h.dropped
  · exact hm

theorem openWrite_lands (h : Carries I S P L G) (hname : isEntryName name = true)
    {m m' : Machine C} {q : Location} (hm : I m)
    (hok : Posix.openWrite (dst.child name) m = (.ok q, m')) : P q := by
  obtain ⟨_, m₁, hcheck, hopen⟩ := bind_eq_ok.mp hok
  have hm₁ : I m₁ := h.tick.checkFault.of_eq hm hcheck
  split at hopen
  next r hr =>
    split at hopen
    · cases hopen
    next hfile =>
      rw [Bool.not_eq_true] at hfile
      cases hopen
      exact h.lands m₁ dst name _ hm₁ hname (.inr ⟨hr, hfile⟩)
  next r hr =>
    cases hopen
    exact h.lands m₁ dst name _ hm₁ hname (.inl hr)
  · cases hopen

theorem writeFile (h : Carries I S P L G) (hname : isEntryName name = true) {content : C}
    (hcontent : G content) : Keeps I (writeFile (dst.child name) content) :=
  (h.openWrite hname).bind_of (P := P) (fun _ _ _ hm hok => h.openWrite_lands hname hm hok)
    fun _ hq => h.writeAt hq hcontent

/-! ## Reading -/

/-- A file that was opened may be read. -/
theorem openRead_lands (h : Carries I S P L G) (hsrc : src ∈ S) {m m' : Machine C} {q : Location}
    (hm : I m) (hok : Posix.openRead src m = (.ok q, m')) : L q := by
  obtain ⟨_, m₁, hcheck, hopen⟩ := bind_eq_ok.mp hok
  have hm₁ : I m₁ := h.tick.checkFault.of_eq hm hcheck
  have hread := (readE_eq_ok.mp hopen).1
  split at hread
  next r hr =>
    split at hread
    · cases hread
    · cases hread
      exact h.opens m₁ src _ hm₁ hsrc hr
  · cases hread
  · cases hread

/-- What is read of it is good. -/
theorem readAt_good (h : Carries I S P L G) {q : Location} (hq : L q) {m m' : Machine C}
    {content : C} (hm : I m) (hok : Posix.readAt q m = (.ok content, m')) : G content := by
  obtain ⟨_, m₁, hcheck, hread⟩ := bind_eq_ok.mp hok
  have hm₁ : I m₁ := h.tick.checkFault.of_eq hm hcheck
  have hfile := (readE_eq_ok.mp hread).1
  split at hfile
  next hentry =>
    cases hfile
    exact h.reads m₁ q _ hm₁ hq hentry
  · cases hfile

/-! ## Copying -/

theorem copyfile (h : Carries I S P L G) (hsrc : src ∈ S) (hname : isEntryName name = true) :
    Keeps I (copyfile src (dst.child name)) := by
  refine (keeps_read _).bind fun same => ?_
  split
  · exact keeps_raise _
  · refine Keeps.mapError _ ?_
    refine (h.tick.openRead src).bind_of (P := L)
      (fun _ _ _ hm hok => h.openRead_lands hsrc hm hok) fun r hr => ?_
    refine (h.openWrite hname).bind_of (P := P)
      (fun _ _ _ hm hok => h.openWrite_lands hname hm hok) fun q hq => ?_
    exact (h.tick.readAt r).bind_of (P := G) (fun _ _ _ hm hok => h.readAt_good hr hm hok)
      fun content hcontent => h.writeAt hq hcontent

theorem copy2 (h : Carries I S P L G) (hsrc : src ∈ S) (hbase : isEntryName src.basename = true)
    (hname : isEntryName name = true) : Keeps I (copy2 src (dst.child name)) := by
  have hchild : ∀ p n, isEntryName n = true → Keeps I (do
      Posix.copyfile src (PosixPath.child p n)
      (copystat src (PosixPath.child p n)).mapError FsError.os) := by
    intro p n hn
    exact (h.copyfile hsrc hn).bind fun _ => (h.tick.copystat _ _).mapError _
  intro m hm
  unfold Posix.copy2
  rw [read_bind]
  split
  · exact hchild _ _ hbase m hm
  · exact hchild _ _ hname m hm

theorem copyEntry (h : Carries I S P L G)
    (hcopy : ∀ src dst, src ∈ S → Keeps I (copyDir src dst)) (hsrc : src ∈ S)
    (dst : PosixPath) (entry : String × EntryKind) (hentry : isEntryName entry.1 = true) :
    Keeps I (copyEntry copyDir src dst entry) := by
  have hchild := h.child src entry.1 hsrc hentry
  have hfile : Keeps I (Posix.copy2 (src.child entry.1) (dst.child entry.1)) :=
    h.copy2 hchild (by rwa [PosixPath.basename_child]) hentry
  have hdir : Keeps I (copyDir (src.child entry.1) (dst.child entry.1)) := hcopy _ _ hchild
  unfold Posix.copyEntry
  split
  · exact hdir
  · exact hfile
  · refine ((keeps_readE _).mapError _).bind fun _ => ?_
    refine ((keeps_readE _).mapError _).bind fun isDir => ?_
    split
    · exact hdir
    · exact hfile

theorem copyEntries (h : Carries I S P L G)
    (hcopy : ∀ src dst, src ∈ S → Keeps I (copyDir src dst)) (hsrc : src ∈ S) (dst : PosixPath)
    (entries : List (String × EntryKind))
    (hentries : ∀ entry ∈ entries, isEntryName entry.1 = true) :
    Keeps I (copyEntries copyDir src dst entries) := by
  induction entries with
  | nil => exact keeps_pure _
  | cons entry entries ih =>
    have hrest := ih fun e he => hentries e (List.mem_cons_of_mem _ he)
    refine (h.copyEntry hcopy hsrc dst entry
      (hentries entry List.mem_cons_self)).attempt.bind fun outcome => ?_
    split
    · exact hrest
    · split
      · exact keeps_raise _
      · exact hrest.bind fun _ => keeps_pure _

/-- **Copying a source keeps the invariant**, wherever it is copied. -/
theorem copytree (h : Carries I S P L G) (fuel : Nat) (hsrc : src ∈ S) (dst : PosixPath) :
    Keeps I (copytree fuel src dst) := by
  induction fuel generalizing src dst with
  | zero => exact keeps_raise _
  | succ fuel ih =>
    refine ((keeps_readE _).mapError _).bind_of
      (P := fun entries => ∀ entry ∈ entries, isEntryName entry.1 = true)
      (fun _ _ _ _ hentries => scandir_names hentries) fun entries hentries => ?_
    refine (h.makes.makedirs _ (Set.mem_univ dst)).bind fun _ => ?_
    refine (h.copyEntries (fun src dst hsrc => ih hsrc dst) hsrc dst entries hentries).bind
      fun errors => ?_
    refine (copystatOf_keeps h.tick _ _ _).bind fun errors => ?_
    split
    · exact keeps_pure _
    · exact keeps_raise _

end Carries

end ClawEngine.Posix
