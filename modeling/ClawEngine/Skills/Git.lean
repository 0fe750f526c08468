import ClawEngine.Core.Argv
import ClawEngine.Skills.GitSource

/-!
# A git that keeps its word

`GitHost` says of `git` only that it changes the machine and exits. Here is what a refresh relies
on. The git directory records the URL a repository was cloned from, the sparse set, the commit
fetched last and the commit whose tree is checked out; `fetch` asks the recorded URL; a checkout
makes the tracked entries those of the commit within the sparse set, and leaves untracked ones.

What the remotes hold may change from one refresh to the next, so a git takes them as an argument.
-/

set_option autoImplicit false

namespace ClawEngine.Skills

open ClawEngine.Core ClawEngine.Core.Argv ClawEngine.Posix

variable {C : Type}

/-- What the git directory records. -/
structure Repository where
  origin : String
  sparse : Option (List String)
  fetched : Option String
  checkedOut : Option String
  deriving DecidableEq, Repr

/-- The commit that each ref of each repository names. -/
abbrev Remotes := String → String → Option String

/-- Entries by their paths in a working tree. -/
abbrev Tree (C : Type) := Location → Option (Entry C)

/-- The git directory of the repository at a location. -/
def gitAt (D : Location) : Location := D ++ [".git"]

/-- A path in the working tree. -/
def InTree (rest : Location) : Prop := rest ≠ [] ∧ rest.head? ≠ some ".git"

/-- The tracked entries at `D` were those of `t` and are those of `t'`. Untracked entries stay, and
so does a directory that has one. -/
structure Moves (D : Location) (t t' : Tree C) (m m' : Machine C) : Prop where
  outside : SameOutside D m m'
  put : ∀ rest e, InTree rest → t' rest = some e → m'.disk.get? (D ++ rest) = some e
  gone : ∀ rest, InTree rest → t' rest = none →
    (∀ more, t (rest ++ more) = none → m.disk.get? (D ++ (rest ++ more)) = none) →
    m'.disk.get? (D ++ rest) = none
  kept : ∀ rest, InTree rest → t' rest = none → t rest = none →
    m'.disk.get? (D ++ rest) = m.disk.get? (D ++ rest)

/-- A git: the program, what it reads from a git directory, and the trees of commits within sparse
sets. -/
structure GitProgram (C : Type) where
  host : Remotes → GitHost C
  repository : Machine C → Location → Option Repository
  tree : String → Option (List String) → Tree C

namespace GitProgram

variable (g : GitProgram C)

/-- The tracked entries of a repository. -/
def tracked (r : Repository) : Tree C :=
  match r.checkedOut with
  | some commit => g.tree commit r.sparse
  | none => fun _ => none

theorem tracked_eq_none {g : GitProgram C} {r : Repository} {rest : Location}
    (h : ∀ commit, r.checkedOut = some commit → ∀ sparse, g.tree commit sparse rest = none) :
    g.tracked r rest = none := by
  unfold tracked
  cases hcommit : r.checkedOut with
  | some commit => exact h commit hcommit r.sparse
  | none => rfl

/-- A process started in `cwd` finds the repository `r` at `D`, its tracked entries unchanged. -/
structure At (cwd : String) (D : Location) (r : Repository) (m : Machine C) : Prop where
  found : lookup m true (PosixPath.ofString cwd) = .found D
  repository : g.repository m D = some r
  intact : ∀ rest e, InTree rest → g.tracked r rest = some e → m.disk.get? (D ++ rest) = some e

/-- The repository at `D` turned from `r` into `r'`. -/
structure Turns (D : Location) (r r' : Repository) (m m' : Machine C) : Prop where
  repository : g.repository m' D = some r'
  moves : Moves D (g.tracked r) (g.tracked r') m m'

/-- The process exits with 0. -/
def Exits (remotes : Remotes) (args : List String) (cwd : String) (m : Machine C) (stdout : String)
    (m' : Machine C) : Prop :=
  ∃ stderr, (g.host remotes).git ("git" :: args) cwd m = (.exited 0 stdout stderr, m')

end GitProgram

/-- A git that does what it documents, for texts that it does not read as options. -/
structure Git (C : Type) extends GitProgram C where
  gitDir : ∀ m D r, repository m D = some r →
    m.disk.get? (gitAt D) = some .dir ∧ m.disk.get? (gitAt D ++ ["SKILL.md"]) = none
  reads : ∀ m m' D, (∀ q, gitAt D <+: q → m'.disk.get? q = m.disk.get? q) →
    repository m' D = repository m D
  clone : ∀ remotes url dir cwd m m' stdout W D, isDashed url = false → isDashed dir = false →
    lookup m true (PosixPath.ofString cwd) = .found W →
    lookup { m with workdir := W } true (PosixPath.ofString dir) = .found D →
    toGitProgram.Exits remotes
      ["clone", "--depth=1", "--filter=blob:none", "--no-checkout", url, dir] cwd m stdout m' →
    ∃ r, r.origin = url ∧ r.checkedOut = none ∧ repository m' D = some r ∧
      Moves D (fun _ => none) (fun _ => none) m m'
  sparseInit : ∀ remotes cwd D r m m' stdout, toGitProgram.At cwd D r m →
    toGitProgram.Exits remotes ["sparse-checkout", "init", "--cone"] cwd m stdout m' →
    ∃ sparse, toGitProgram.Turns D r { r with sparse } m m'
  sparseSet : ∀ remotes paths cwd D r m m' stdout, (∀ p ∈ paths, isDashed p = false) →
    toGitProgram.At cwd D r m →
    toGitProgram.Exits remotes ("sparse-checkout" :: "set" :: paths) cwd m stdout m' →
    toGitProgram.Turns D r { r with sparse := some paths } m m'
  sparseDisable : ∀ remotes cwd D r m m' stdout, toGitProgram.At cwd D r m →
    toGitProgram.Exits remotes ["sparse-checkout", "disable"] cwd m stdout m' →
    toGitProgram.Turns D r { r with sparse := none } m m'
  /-- A git that does not know the command has recorded no sparse set. -/
  sparseUnknown : ∀ remotes cwd D r m m' process e, toGitProgram.At cwd D r m →
    (host remotes).git ["git", "sparse-checkout", "disable"] cwd m = (process, m') →
    gitResult ["sparse-checkout", "disable"] process = .error (.git e) →
    isUnknownCommand (host remotes) e = true → r.sparse = none ∧ toGitProgram.Turns D r r m m'
  fetch : ∀ remotes ref cwd D r m m' stdout, isDashed ref = false →
    toGitProgram.At cwd D r m →
    toGitProgram.Exits remotes ["fetch", "--depth=1", "origin", ref] cwd m stdout m' →
    ∃ commit, remotes r.origin ref = some commit ∧
      toGitProgram.Turns D r { r with fetched := some commit } m m'
  checkout : ∀ remotes cwd D r m m' stdout, toGitProgram.At cwd D r m →
    toGitProgram.Exits remotes ["checkout", "--detach", "FETCH_HEAD"] cwd m stdout m' →
    ∃ commit, r.fetched = some commit ∧
      toGitProgram.Turns D r { r with checkedOut := some commit } m m'
  revParse : ∀ remotes cwd D r m m' stdout, toGitProgram.At cwd D r m →
    toGitProgram.Exits remotes ["rev-parse", "HEAD"] cwd m stdout m' →
    (∀ commit, r.checkedOut = some commit → strip stdout = commit) ∧
      toGitProgram.Turns D r r m m'

end ClawEngine.Skills
