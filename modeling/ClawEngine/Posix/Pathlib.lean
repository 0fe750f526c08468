import ClawEngine.Posix.System

/-!
# pathlib

What the repository uses of `pathlib.Path`. A `Path` is a path without the names `.`, and prints its
names between slashes; the relative one without names prints, and is looked up, as `.`.
-/

set_option autoImplicit false

namespace ClawEngine.Posix

open ClawEngine.Core

variable {C : Type}

/-- `os.path.basename` of a text: what follows its last slash. -/
def baseName (s : String) : String := String.ofList ((splitNames s.toList).getLast?.getD [])

/-- `Path(s)`. -/
def purePath (s : String) : PosixPath where
  absolute := (PosixPath.ofString s).absolute
  names := (PosixPath.ofString s).names.filter (· ≠ ".")

namespace PosixPath

/-- `str(p)`. -/
def text (p : PosixPath) : String :=
  if p.absolute then "/" ++ "/".intercalate p.names
  else if p.names = [] then "."
  else "/".intercalate p.names

/-- The path the system is asked about. -/
def sys (p : PosixPath) : PosixPath :=
  if p.absolute = false ∧ p.names = [] then ⟨false, ["."]⟩ else p

/-- `p / s`. -/
def joinText (p : PosixPath) (s : String) : PosixPath := p.join (purePath s)

end PosixPath

/-! ## The text of a path -/

/-- What a name between slashes is. -/
def Sliced (name : String) : Prop := name ≠ "" ∧ '/' ∉ name.toList

theorem slash_notMem_splitNames {cs cs' : List Char} (h : cs' ∈ splitNames cs) : '/' ∉ cs' := by
  induction cs generalizing cs' with
  | nil =>
    rw [List.mem_singleton.mp h]
    exact List.not_mem_nil
  | cons c cs ih =>
    unfold splitNames at h
    split at h
    · rcases List.mem_cons.mp h with rfl | h
      · exact List.not_mem_nil
      · exact ih h
    next hc =>
      obtain ⟨name, rest, hsplit⟩ := List.exists_cons_of_ne_nil (splitNames_ne_nil cs)
      rw [hsplit] at h ih
      rcases List.mem_cons.mp h with rfl | h
      · intro hmem
        rcases List.mem_cons.mp hmem with heq | hmem
        · exact hc heq.symm
        · exact ih List.mem_cons_self hmem
      · exact ih (List.mem_cons_of_mem _ h)

theorem sliced_of_mem_namesOf {cs : List Char} {name : String} (h : name ∈ namesOf cs) :
    Sliced name := by
  obtain ⟨cs', hcs', rfl⟩ := List.mem_map.mp h
  obtain ⟨hmem, hne⟩ := List.mem_filter.mp hcs'
  refine ⟨fun hempty => of_decide_eq_true hne ?_, ?_⟩
  · rw [← String.toList_ofList (l := cs'), hempty]
    rfl
  · rw [String.toList_ofList]
    exact slash_notMem_splitNames hmem

theorem namesOf_sliced {name : String} (h : Sliced name) : namesOf name.toList = [name] := by
  have hne : name.toList ≠ [] := fun hnil => h.1 (String.toList_eq_nil_iff.mp hnil)
  rw [namesOf, splitNames_segment h.2, List.filter_singleton, decide_eq_true hne, cond_true,
    List.map_singleton, String.ofList_toList]

/-- **The names of a text of names between slashes** are these. -/
theorem namesOf_intercalate {names : List String} (h : ∀ name ∈ names, Sliced name) :
    namesOf ("/".intercalate names).toList = names := by
  rw [String.toList_intercalate]
  induction names with
  | nil => rfl
  | cons name names ih =>
    have hname := namesOf_sliced (h name List.mem_cons_self)
    have hrest := ih fun n hn => h n (List.mem_cons_of_mem _ hn)
    cases names with
    | nil =>
      rw [List.map_singleton, List.intercalate_singleton]
      exact hname
    | cons name' names =>
      have hslash : "/".toList.intercalate ((name :: name' :: names).map String.toList) =
          name.toList ++ '/' :: "/".toList.intercalate ((name' :: names).map String.toList) := by
        rw [List.map_cons, List.map_cons, List.intercalate_cons_cons, List.append_assoc]
        rfl
      rw [hslash, namesOf_append_slash, hname, hrest]
      rfl

/-- Names between slashes do not start with one. -/
theorem intercalate_relative {names : List String} (h : ∀ name ∈ names, Sliced name) :
    ("/".intercalate names).toList.head? ≠ some '/' := by
  intro hslash
  rw [String.toList_intercalate] at hslash
  cases names with
  | nil => cases hslash
  | cons name rest =>
    have hname := h name List.mem_cons_self
    obtain ⟨c, cs, hcs⟩ := List.exists_cons_of_ne_nil
      fun hempty => hname.1 (String.toList_eq_nil_iff.mp hempty)
    have hc : c ∈ name.toList := by
      rw [hcs]
      exact List.mem_cons_self
    cases rest with
    | nil =>
      rw [List.map_singleton, List.intercalate_singleton, hcs, List.head?_cons] at hslash
      exact hname.2 (Option.some.inj hslash ▸ hc)
    | cons name' rest =>
      rw [List.map_cons, List.map_cons, List.intercalate_cons_cons, hcs] at hslash
      exact hname.2 (Option.some.inj hslash ▸ hc)

/-- **The text of a path names it**, as the system sees it. -/
theorem ofString_text {p : PosixPath} (h : ∀ name ∈ p.names, Sliced name) :
    PosixPath.ofString p.text = p.sys := by
  obtain ⟨absolute, names⟩ := p
  cases absolute with
  | true =>
    have hnames : namesOf ("/" ++ "/".intercalate names).toList = names := by
      rw [String.toList_append]
      exact (namesOf_append_slash [] _).trans (namesOf_intercalate h)
    have hhead : ("/" ++ "/".intercalate names).toList.head? = some '/' := by
      rw [String.toList_append]
      rfl
    simp only [PosixPath.ofString, PosixPath.text, PosixPath.sys, if_true, hnames, hhead,
      decide_true, reduceCtorEq, false_and, if_false]
  | false =>
    by_cases hnil : names = []
    · subst hnil
      decide
    · have hhead := intercalate_relative h
      simp only [PosixPath.ofString, PosixPath.text, PosixPath.sys, hhead,
        namesOf_intercalate h, decide_false, Bool.false_eq_true, if_false, hnil, and_false]

theorem purePath_sliced (s : String) : ∀ name ∈ (purePath s).names, Sliced name :=
  fun _ h => sliced_of_mem_namesOf (List.mem_filter.mp h).1

/-! ## Operations -/

/-- `p.is_symlink()`. -/
def isSymlink (m : Machine C) (p : PosixPath) : Bool :=
  match lookup m false p with
  | .found q =>
    match m.disk.get? q with
    | some e => e.isLink
    | none => false
  | _ => false

/-- `p.unlink()`. -/
def unlink (p : PosixPath) : Sys C Unit := do
  let q ← Act.readE fun m =>
    match lookup m false p with
    | .found q => .ok q
    | .missing _ => .error .fileNotFound
    | .error e => .error e
  unlinkAt q

/-- `p.symlink_to(target)`. -/
def symlinkTo (p : PosixPath) (target : String) : Sys C Unit := do
  checkFault
  fun m =>
    match lookup m false p with
    | .found _ => (.error .fileExists, m)
    | .missing q => (.ok (), { m with disk := m.disk.put q (.link target) })
    | .error e => (.error e, m)

/-- `p.mkdir(exist_ok=True)`. -/
def mkdirHere (p : PosixPath) : Fs C Unit := do
  match ← (mkdir p.sys).attempt with
  | .ok () => pure ()
  | .error .fileNotFound => Act.raise (.os .fileNotFound)
  | .error e => if ← Act.read (isdir · p.sys) then pure () else Act.raise (.os e)

/-- `p.mkdir(parents=True, exist_ok=True)`. -/
def mkdirParents : (fuel : Nat) → PosixPath → Fs C Unit
  | 0, _ => Act.raise .recursion
  | fuel + 1, p => do
    match ← (mkdir p.sys).attempt with
    | .ok () => pure ()
    | .error .fileNotFound =>
      if p.names = [] then Act.raise (.os .fileNotFound)
      else
        mkdirParents fuel p.head
        mkdirHere p
    | .error e => if ← Act.read (isdir · p.sys) then pure () else Act.raise (.os e)

/-- The names `p.iterdir()` yields, in the order of the directory. -/
def iterdir (p : PosixPath) : Sys C (List String) := do
  let entries ← scandir p.sys
  pure (entries.map Prod.fst)

end ClawEngine.Posix
