import Mathlib.Tactic.Common

/-!
# The text of a path

A path is handed to the system as a text. What the system sees of it is whether it starts at the
root and the names between its slashes; empty names do not count. `pathJoin` is `os.path.join`.
-/

set_option autoImplicit false

namespace ClawEngine.Posix

/-- `os.path.join(a, b)`. -/
def pathJoin (a b : String) : String :=
  if b.toList.head? = some '/' then b
  else if a.toList = [] ∨ a.toList.getLast? = some '/' then a ++ b
  else a ++ "/" ++ b

/-- A path as the system sees it. The empty text is the relative path without names. -/
structure PosixPath where
  absolute : Bool
  names : List String
  deriving DecidableEq, Repr

/-- The characters between the slashes. -/
def splitNames : List Char → List (List Char)
  | [] => [[]]
  | c :: cs =>
    if c = '/' then [] :: splitNames cs
    else
      match splitNames cs with
      | [] => [[c]]
      | name :: rest => (c :: name) :: rest

/-- The names of a text of characters. -/
def namesOf (cs : List Char) : List String :=
  ((splitNames cs).filter (· ≠ [])).map String.ofList

namespace PosixPath

def ofString (s : String) : PosixPath where
  absolute := s.toList.head? = some '/'
  names := namesOf s.toList

/-- `os.path.join`, on the paths. -/
def join (p q : PosixPath) : PosixPath :=
  if q.absolute then q else ⟨p.absolute, p.names ++ q.names⟩

/-- `os.path.join(p, name)` for one name. -/
def child (p : PosixPath) (name : String) : PosixPath := ⟨p.absolute, p.names ++ [name]⟩

/-- `os.path.basename`. -/
def basename (p : PosixPath) : String := p.names.getLast?.getD ""

@[simp] theorem basename_child (p : PosixPath) (name : String) :
    (p.child name).basename = name := by
  rw [basename, child, List.getLast?_concat, Option.getD_some]

end PosixPath

theorem splitNames_ne_nil (cs : List Char) : splitNames cs ≠ [] := by
  cases cs with
  | nil => exact List.cons_ne_nil _ _
  | cons c cs =>
    unfold splitNames
    split
    · exact List.cons_ne_nil _ _
    · split <;> exact List.cons_ne_nil _ _

/-- A text without a slash is one segment. -/
theorem splitNames_segment {seg : List Char} (h : '/' ∉ seg) : splitNames seg = [seg] := by
  induction seg with
  | nil => rfl
  | cons c cs ih =>
    rw [List.mem_cons, not_or] at h
    simp only [splitNames, if_neg (Ne.symm h.1), ih h.2]

theorem splitNames_append_slash (xs ys : List Char) :
    splitNames (xs ++ '/' :: ys) = splitNames xs ++ splitNames ys := by
  induction xs with
  | nil => simp only [List.nil_append, splitNames, if_true, List.cons_append]
  | cons c cs ih =>
    by_cases hc : c = '/'
    · simp only [List.cons_append, splitNames, hc, if_true, ih]
    · obtain ⟨name, rest, hsplit⟩ := List.exists_cons_of_ne_nil (splitNames_ne_nil cs)
      simp only [List.cons_append, splitNames, hc, if_false, ih, hsplit]

theorem namesOf_append_slash (xs ys : List Char) :
    namesOf (xs ++ '/' :: ys) = namesOf xs ++ namesOf ys := by
  simp only [namesOf, splitNames_append_slash, List.filter_append, List.map_append]

/-! ## Locations -/

/-- The place of an entry: the names from the root to it, none of them a link. -/
abbrev Location := List String

/-- A name an entry of a directory can have. -/
def isEntryName (name : String) : Bool :=
  name ≠ "" && name ≠ "." && name ≠ ".." && !name.toList.contains '/'

/-- `os.path.commonpath([p, q])` of two absolute paths without `.` and `..`. -/
def commonPath : Location → Location → Location
  | x :: xs, y :: ys => if x = y then x :: commonPath xs ys else []
  | _, _ => []

theorem commonPath_append (p q : Location) : commonPath p (p ++ q) = p := by
  induction p with
  | nil => cases q <;> rfl
  | cons x xs ih => simp only [List.cons_append, commonPath, if_true, ih]

theorem commonPath_prefix (p q : Location) : commonPath p q <+: q := by
  induction p generalizing q with
  | nil => cases q <;> exact List.nil_prefix
  | cons x xs ih =>
    cases q with
    | nil => exact List.nil_prefix
    | cons y ys =>
      unfold commonPath
      split
      next hxy =>
        subst hxy
        exact (List.prefix_cons_inj x).mpr (ih ys)
      · exact List.nil_prefix

end ClawEngine.Posix
