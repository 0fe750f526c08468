import ClawEngine.Posix.System
import Mathlib.Data.Set.Insert

/-!
# What making and copying keep

Rules for an invariant of the machine that survives making directories and writing files under the
paths of a set: it then survives every function of `os` and `shutil` that makes or copies under such
a path, whether the function returns or raises. `Cuts` is the same for removing.
-/

set_option autoImplicit false

namespace ClawEngine.Posix

open ClawEngine.Core ClawEngine.Core.Act

variable {C : Type}

/-! ## The rules -/

/-- Where a file opened for writing under a path is. -/
def OpensAt (m : Machine C) (p : PosixPath) (q : Location) : Prop :=
  lookup m true p = .missing q ∨ lookup m true p = .found q ∧ m.disk.isDirAt q = false

/-- Where something made or opened for writing under a path is. -/
def PutsAt (m : Machine C) (p : PosixPath) (q : Location) : Prop :=
  lookup m false p = .missing q ∨ OpensAt m p q

/-- `I` survives the steps of the machine's count. -/
def Ticks (I : Machine C → Prop) : Prop := ∀ m n, I m → I { m with tick := n }

/-- `I` survives directories made under the paths of `A`, and `makedirs` stays among them. -/
structure Makes (I : Machine C → Prop) (A : Set PosixPath) : Prop where
  tick : Ticks I
  dir : ∀ m p q, I m → p ∈ A → lookup m false p = .missing q →
    I { m with disk := m.disk.put q .dir }
  head : ∀ m p, I m → p ∈ A → lacksHead m p = true → p.head ∈ A

/-- `I` survives files written under the paths of `A`, which are at locations with `P`. -/
structure Fills (I : Machine C → Prop) (A : Set PosixPath) (P : Location → Prop) : Prop where
  tick : Ticks I
  lands : ∀ m p q, I m → p ∈ A → OpensAt m p q → P q
  file : ∀ m q content, I m → P q → I { m with disk := m.disk.put q (.file content) }

/-- `I` survives both, under paths that are closed under going down. -/
structure Writes (I : Machine C → Prop) (A : Set PosixPath) (P : Location → Prop) : Prop
    extends Makes I A, Fills I A P where
  child : ∀ p name, p ∈ A → isEntryName name = true → p.child name ∈ A

/-- `I` survives removals at and below `T`. -/
structure Cuts (I : Machine C → Prop) (T : Location) : Prop where
  tick : Ticks I
  prune : ∀ m q, I m → T <+: q → I { m with disk := m.disk.prune q }

variable {I : Machine C → Prop} {A : Set PosixPath} {P : Location → Prop}

theorem Ticks.checkFault (h : Ticks I) : Keeps I (checkFault (C := C)) := by
  intro m hm
  unfold Posix.checkFault
  split
  · exact h m _ hm
  · exact h m _ hm

theorem Ticks.openRead (h : Ticks I) (p : PosixPath) : Keeps I (openRead p) :=
  h.checkFault.bind fun _ => keeps_readE _

theorem Ticks.readAt (h : Ticks I) (q : Location) : Keeps I (readAt q) :=
  h.checkFault.bind fun _ => keeps_readE _

theorem Ticks.readFile (h : Ticks I) (p : PosixPath) : Keeps I (readFile p) :=
  (h.openRead p).bind fun q => h.readAt q

theorem Ticks.copystat (h : Ticks I) (src dst : PosixPath) : Keeps I (copystat src dst) :=
  h.checkFault.bind fun _ => keeps_readE _

/-! ## Making directories -/

theorem passFileExists_keeps {x : Fs C Unit} (hx : Keeps I x) : Keeps I (passFileExists x) := by
  refine hx.attempt.bind fun outcome => ?_
  split
  · exact keeps_pure _
  · exact keeps_pure _
  · exact keeps_raise _

namespace Makes

variable {p : PosixPath}

theorem mkdir (h : Makes I A) (hp : p ∈ A) : Keeps I (mkdir p) := by
  refine h.tick.checkFault.bind fun _ m hm => ?_
  split
  · exact hm
  next q hq => exact h.dir m p q hm hp hq
  · exact hm

theorem mkdirExistOk (h : Makes I A) (hp : p ∈ A) : Keeps I (mkdirExistOk p) := by
  refine (h.mkdir hp).attempt.bind fun outcome => ?_
  split
  · exact keeps_pure _
  · refine (keeps_read _).bind fun isDir => ?_
    split
    · exact keeps_pure _
    · exact keeps_raise _

theorem makedirs (h : Makes I A) (fuel : Nat) (hp : p ∈ A) : Keeps I (makedirs fuel p) := by
  induction fuel generalizing p with
  | zero => exact keeps_raise _
  | succ fuel ih =>
    refine (keeps_read _).bind_of (P := fun lacks => lacks = true → p.head ∈ A) ?_ ?_
    · intro m _ _ hm heq hlacks
      cases heq
      exact h.head m p hm hp hlacks
    · intro lacks hlacks
      split
      next hl =>
        refine (passFileExists_keeps (ih (hlacks hl))).bind fun _ => ?_
        split
        · exact keeps_pure _
        · exact h.mkdirExistOk hp
      next => exact h.mkdirExistOk hp

end Makes

/-! ## Writing files -/

namespace Fills

theorem writeAt (h : Fills I A P) {q : Location} (hq : P q) (content : C) :
    Keeps I (writeAt q content) := by
  intro m hm
  unfold Posix.writeAt
  split
  · exact h.tick _ _ (h.file m q _ hm hq)
  · exact h.tick _ _ (h.file m q _ hm hq)

variable [Inhabited C] {p : PosixPath}

theorem openWrite (h : Fills I A P) (hp : p ∈ A) : Keeps I (openWrite p) := by
  refine h.tick.checkFault.bind fun _ m hm => ?_
  split
  next q hq =>
    split
    · exact hm
    next hfile =>
      rw [Bool.not_eq_true] at hfile
      exact h.file m q _ hm (h.lands m p q hm hp (.inr ⟨hq, hfile⟩))
  next q hq => exact h.file m q _ hm (h.lands m p q hm hp (.inl hq))
  · exact hm

/-- A file that was opened is at a location with `P`. -/
theorem openWrite_lands (h : Fills I A P) (hp : p ∈ A) {m m' : Machine C} {q : Location}
    (hm : I m) (hok : Posix.openWrite p m = (.ok q, m')) : P q := by
  obtain ⟨_, m₁, hcheck, hopen⟩ := bind_eq_ok.mp hok
  have hm₁ : I m₁ := by
    have hkept := h.tick.checkFault m hm
    rwa [hcheck] at hkept
  split at hopen
  next r hr =>
    split at hopen
    · cases hopen
    next hfile =>
      rw [Bool.not_eq_true] at hfile
      cases hopen
      exact h.lands m₁ p _ hm₁ hp (.inr ⟨hr, hfile⟩)
  next r hr =>
    cases hopen
    exact h.lands m₁ p _ hm₁ hp (.inl hr)
  · cases hopen

theorem writeFile (h : Fills I A P) (hp : p ∈ A) (content : C) :
    Keeps I (writeFile p content) :=
  (h.openWrite hp).bind_of (P := P) (fun _ _ _ hm hok => h.openWrite_lands hp hm hok)
    fun _ hq => h.writeAt hq content

theorem copyfile (h : Fills I A P) (src : PosixPath) (hp : p ∈ A) : Keeps I (copyfile src p) := by
  refine (keeps_read _).bind fun same => ?_
  split
  · exact keeps_raise _
  · refine Keeps.mapError _ ?_
    refine (h.tick.openRead src).bind fun r => ?_
    refine (h.openWrite hp).bind_of (P := P) (fun _ _ _ hm hok => h.openWrite_lands hp hm hok)
      fun q hq => ?_
    exact (h.tick.readAt r).bind fun content => h.writeAt hq content

end Fills

/-! ## Copying -/

theorem listing_names {d : Disk C} {q : Location} {entry : String × EntryKind}
    (h : entry ∈ listing d q) : isEntryName entry.1 = true := by
  obtain ⟨name, hname, hentry⟩ := List.mem_filterMap.mp h
  obtain ⟨e, -, rfl⟩ := Option.map_eq_some_iff.mp hentry
  exact Disk.isEntryName_of_mem_children hname

theorem scandir_names {m m' : Machine C} {p : PosixPath} {entries : List (String × EntryKind)}
    (h : (scandir p).mapError FsError.os m = (.ok entries, m')) :
    ∀ entry ∈ entries, isEntryName entry.1 = true := by
  have hread := congrArg Prod.fst (mapError_eq_ok.mp h)
  dsimp only [scandir, Act.readE] at hread
  split at hread
  · split at hread
    · cases hread
      exact fun entry hentry => listing_names hentry
    · cases hread
  · cases hread
  · cases hread

theorem copystatOf_keeps (h : Ticks I) (src dst : PosixPath) (errors : List CopyFault) :
    Keeps I (copystatOf src dst errors) := by
  refine (h.copystat src dst).attempt.bind fun outcome => ?_
  split
  · exact keeps_pure _
  · exact keeps_pure _

namespace Writes

variable [Inhabited C] {dst : PosixPath} {copyDir : PosixPath → PosixPath → Fs C Unit}

theorem copy2 (h : Writes I A P) (src : PosixPath) (hsrc : isEntryName src.basename = true)
    (hdst : dst ∈ A) : Keeps I (copy2 src dst) := by
  refine (keeps_read _).bind_of (P := (· ∈ A)) ?_ ?_
  · intro m _ _ _ heq
    cases heq
    dsimp only
    split
    · exact h.child dst _ hdst hsrc
    · exact hdst
  · exact fun target htarget =>
      (h.toFills.copyfile src htarget).bind fun _ => (h.tick.copystat _ _).mapError _

theorem copyEntry (h : Writes I A P) (hcopy : ∀ src dst, dst ∈ A → Keeps I (copyDir src dst))
    (src : PosixPath) (hdst : dst ∈ A) (entry : String × EntryKind)
    (hentry : isEntryName entry.1 = true) : Keeps I (copyEntry copyDir src dst entry) := by
  have hchild := h.child dst entry.1 hdst hentry
  have hfile : Keeps I (Posix.copy2 (src.child entry.1) (dst.child entry.1)) :=
    h.copy2 _ (by rwa [PosixPath.basename_child]) hchild
  have hdir : Keeps I (copyDir (src.child entry.1) (dst.child entry.1)) := hcopy _ _ hchild
  unfold Posix.copyEntry
  split
  · exact hdir
  · exact hfile
  · refine ((keeps_readE _).mapError _).bind fun _ => ?_
    refine ((keeps_readE _).mapError _).bind fun isDir => ?_
    split
    · exact hdir
    · exact hfile

theorem copyEntries (h : Writes I A P) (hcopy : ∀ src dst, dst ∈ A → Keeps I (copyDir src dst))
    (src : PosixPath) (hdst : dst ∈ A) (entries : List (String × EntryKind))
    (hentries : ∀ entry ∈ entries, isEntryName entry.1 = true) :
    Keeps I (copyEntries copyDir src dst entries) := by
  induction entries with
  | nil => exact keeps_pure _
  | cons entry entries ih =>
    have hrest := ih fun e he => hentries e (List.mem_cons_of_mem _ he)
    refine (h.copyEntry hcopy src hdst entry
      (hentries entry List.mem_cons_self)).attempt.bind fun outcome => ?_
    split
    · exact hrest
    · split
      · exact keeps_raise _
      · exact hrest.bind fun _ => keeps_pure _

/-- **Copying a directory under a path of `A` keeps the invariant**, whatever is copied. -/
theorem copytree (h : Writes I A P) (fuel : Nat) (src : PosixPath) (hdst : dst ∈ A) :
    Keeps I (copytree fuel src dst) := by
  induction fuel generalizing src dst with
  | zero => exact keeps_raise _
  | succ fuel ih =>
    refine ((keeps_readE _).mapError _).bind_of
      (P := fun entries => ∀ entry ∈ entries, isEntryName entry.1 = true)
      (fun _ _ _ _ hentries => scandir_names hentries) fun entries hentries => ?_
    refine (h.toMakes.makedirs _ hdst).bind fun _ => ?_
    refine (h.copyEntries (fun src dst => ih src) src hdst entries hentries).bind fun errors => ?_
    refine (copystatOf_keeps h.tick _ _ _).bind fun errors => ?_
    split
    · exact keeps_pure _
    · exact keeps_raise _

end Writes

/-! ## Removing -/

namespace Cuts

variable {T q : Location}

theorem unlinkAt (h : Cuts I T) (hq : T <+: q) : Keeps I (unlinkAt (C := C) q) := by
  refine h.tick.checkFault.bind fun _ m hm => ?_
  split
  · exact hm
  · exact hm
  · exact h.prune m q hm hq

theorem rmdirAt (h : Cuts I T) (hq : T <+: q) : Keeps I (rmdirAt (C := C) q) := by
  refine h.tick.checkFault.bind fun _ m hm => ?_
  split
  · split
    · exact h.prune m q hm hq
    · exact hm
  · exact hm

theorem removeEntries {remove : Location → Fs C Unit} (h : Cuts I T) (hq : T <+: q)
    (hremove : ∀ name, Keeps I (remove (q ++ [name]))) (entries : List (String × EntryKind)) :
    Keeps I (removeEntries remove q entries) := by
  induction entries with
  | nil => exact keeps_pure _
  | cons entry entries ih =>
    obtain ⟨name, kind⟩ := entry
    have hunlink : Keeps I ((Posix.unlinkAt (C := C) (q ++ [name])).mapError FsError.os) :=
      (h.unlinkAt (hq.trans (List.prefix_append q [name]))).mapError _
    unfold Posix.removeEntries
    cases kind with
    | dir => exact (hremove name).bind fun _ => ih
    | file => exact hunlink.bind fun _ => ih
    | link => exact hunlink.bind fun _ => ih

/-- **Removing a directory below `T` keeps the invariant.** -/
theorem removeTree (h : Cuts I T) (fuel : Nat) (hq : T <+: q) :
    Keeps I (removeTree (C := C) fuel q) := by
  induction fuel generalizing q with
  | zero => exact keeps_raise _
  | succ fuel ih =>
    refine (keeps_read _).bind fun entries => ?_
    refine (h.removeEntries hq (fun name => ?_) entries).bind fun _ => ?_
    · exact ih (hq.trans (List.prefix_append q [name]))
    · exact (h.rmdirAt hq).mapError _

end Cuts

/-- **Removing the directory of a path**, wherever the path leads on the machines of `I`. -/
theorem rmtree_keeps {depth : Nat} {p : PosixPath} (h : ∀ m q, I m → lookup m false p = .found q →
    m.disk.get? q = some .dir → Cuts I q) : Keeps I (rmtree depth p) := by
  refine (keeps_readE _).bind_of (P := Cuts I) ?_ fun q hcuts =>
    hcuts.removeTree depth (List.prefix_refl q)
  intro m q m' hm hread
  obtain ⟨hanswer, -⟩ := readE_eq_ok.mp hread
  split at hanswer
  next r hr =>
    split at hanswer
    next hdir =>
      cases hanswer
      exact h m _ hm hr hdir
    · cases hanswer
    · cases hanswer
  · cases hanswer
  · cases hanswer

end ClawEngine.Posix
