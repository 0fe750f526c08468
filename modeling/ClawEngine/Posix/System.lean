import ClawEngine.Core.Act
import ClawEngine.Posix.Lookup

/-!
# Operations on files

The calls of the system that `os` and `shutil` are made of, and the functions of these two that
make, copy and remove directories. An operation that reads or changes a file may meet a fault of the
machine; a question about an entry does not. Times and permissions are not modelled: `copystat`
changes nothing, and fails like any other operation.

The recursive functions are given how many directories deep they get before Python's recursion limit
stops them.
-/

set_option autoImplicit false

namespace ClawEngine.Posix

open ClawEngine.Core

variable {C : Type}

/-! ## Calls of the system -/

/-- The calls of the system, on a machine. -/
abbrev Sys (C A : Type) := Act (Machine C) OsError A

/-- The fault the next operation meets, if any. -/
def checkFault : Sys C Unit := fun m =>
  match m.faults m.tick with
  | some fault => (.error fault.error, { m with tick := m.tick + 1 })
  | none => (.ok (), { m with tick := m.tick + 1 })

/-- `mkdir`. -/
def mkdir (p : PosixPath) : Sys C Unit := do
  checkFault
  fun m =>
    match lookup m false p with
    | .found _ => (.error .fileExists, m)
    | .missing q => (.ok (), { m with disk := m.disk.put q .dir })
    | .error e => (.error e, m)

/-- `open` for reading: where the file is. -/
def openRead (p : PosixPath) : Sys C Location := do
  checkFault
  Act.readE fun m =>
    match lookup m true p with
    | .found q => if m.disk.isDirAt q then .error .isADirectory else .ok q
    | .missing _ => .error .fileNotFound
    | .error e => .error e

/-- The content of an open file. -/
def readAt (q : Location) : Sys C C := do
  checkFault
  Act.readE fun m =>
    match m.disk.get? q with
    | some (.file content) => .ok content
    | _ => .error .fileNotFound

/-- `open` for writing: the file is made, or its content dropped. -/
def openWrite [Inhabited C] (p : PosixPath) : Sys C Location := do
  checkFault
  fun m =>
    match lookup m true p with
    | .found q =>
      if m.disk.isDirAt q then (.error .isADirectory, m)
      else (.ok q, { m with disk := m.disk.put q (.file default) })
    | .missing q => (.ok q, { m with disk := m.disk.put q (.file default) })
    | .error e => (.error e, m)

/-- Writing to an open file; a fault leaves a part of the content. -/
def writeAt (q : Location) (content : C) : Sys C Unit := fun m =>
  match m.faults m.tick with
  | some fault =>
    (.error fault.error,
      { m with disk := m.disk.put q (.file fault.left), tick := m.tick + 1 })
  | none => (.ok (), { m with disk := m.disk.put q (.file content), tick := m.tick + 1 })

/-- `with open(p, "w") as f: f.write(content)`. -/
def writeFile [Inhabited C] (p : PosixPath) (content : C) : Sys C Unit := do
  let q ← openWrite p
  writeAt q content

/-- `with open(p) as f: f.read()`. -/
def readFile (p : PosixPath) : Sys C C := do
  let q ← openRead p
  readAt q

/-- `unlink`, of an entry of an open directory. -/
def unlinkAt (q : Location) : Sys C Unit := do
  checkFault
  fun m =>
    match m.disk.get? q with
    | none => (.error .fileNotFound, m)
    | some .dir => (.error .isADirectory, m)
    | some _ => (.ok (), { m with disk := m.disk.prune q })

/-- `rmdir`, of an entry of an open directory. -/
def rmdirAt (q : Location) : Sys C Unit := do
  checkFault
  fun m =>
    if m.disk.isDirAt q then
      if m.disk.children q = [] then (.ok (), { m with disk := m.disk.prune q })
      else (.error (.other "Directory not empty"), m)
    else (.error .notADirectory, m)

/-! ## Questions -/

/-- `os.path.exists`. -/
def exists? (m : Machine C) (p : PosixPath) : Bool :=
  match lookup m true p with
  | .found _ => true
  | _ => false

/-- `os.path.isdir`. -/
def isdir (m : Machine C) (p : PosixPath) : Bool :=
  match lookup m true p with
  | .found q => m.disk.isDirAt q
  | _ => false

/-- `os.path.isfile`. -/
def isfile (m : Machine C) (p : PosixPath) : Bool :=
  match lookup m true p with
  | .found q => !m.disk.isDirAt q
  | _ => false

theorem isdir_iff {m : Machine C} {p : PosixPath} :
    isdir m p = true ↔ ∃ q, lookup m true p = .found q ∧ m.disk.get? q = some .dir := by
  unfold isdir
  cases lookup m true p with
  | found q => simp only [Disk.isDirAt_iff, Lookup.found.injEq, exists_eq_left']
  | missing q => simp only [Bool.false_eq_true, reduceCtorEq, false_and, exists_false]
  | error e => simp only [Bool.false_eq_true, reduceCtorEq, false_and, exists_false]

theorem isfile_iff {m : Machine C} {p : PosixPath} :
    isfile m p = true ↔ ∃ q, lookup m true p = .found q ∧ m.disk.isDirAt q = false := by
  unfold isfile
  cases lookup m true p with
  | found q => simp only [Bool.not_eq_true', Lookup.found.injEq, exists_eq_left']
  | missing q => simp only [Bool.false_eq_true, reduceCtorEq, false_and, exists_false]
  | error e => simp only [Bool.false_eq_true, reduceCtorEq, false_and, exists_false]

/-- `os.path.samefile`, `False` where one of the files is not there. -/
def samefile (m : Machine C) (p q : PosixPath) : Bool :=
  match lookup m true p, lookup m true q with
  | .found a, .found b => a = b
  | _, _ => false

/-- The kinds of entries a directory is read with. -/
inductive EntryKind
  | dir | file | link
  deriving DecidableEq, Repr

def Entry.kind : Entry C → EntryKind
  | .dir => .dir
  | .file _ => .file
  | .link _ => .link

/-- The names in a directory with their kinds. -/
def listing (d : Disk C) (q : Location) : List (String × EntryKind) :=
  (d.children q).filterMap fun name => (d.get? (q ++ [name])).map fun e => (name, e.kind)

/-- `list(os.scandir(p))`. -/
def scandir (p : PosixPath) : Sys C (List (String × EntryKind)) :=
  Act.readE fun m =>
    match lookup m true p with
    | .found q => if m.disk.isDirAt q then .ok (listing m.disk q) else .error .notADirectory
    | .missing _ => .error .fileNotFound
    | .error e => .error e

/-- `entry.is_dir()` of an entry that is a link: a missing target is none. -/
def linkIsDir (p : PosixPath) : Sys C Bool :=
  Act.readE fun m =>
    match lookup m true p with
    | .found q => .ok (m.disk.isDirAt q)
    | .missing _ => .ok false
    | .error .fileNotFound => .ok false
    | .error e => .error e

/-- `os.readlink`, whose answer nothing depends on here. -/
def readlink (p : PosixPath) : Sys C Unit :=
  Act.readE fun m =>
    match lookup m false p with
    | .found q =>
      match m.disk.get? q with
      | some (.link _) => .ok ()
      | _ => .error (.other "Invalid argument")
    | .missing _ => .error .fileNotFound
    | .error e => .error e

/-! ## Directories -/

/-- One item of the list a `shutil.Error` carries. -/
inductive CopyFault
  | entry (src dst : PosixPath) (e : OsError)
  | text (message : String)

/-- The exceptions of `os` and `shutil` functions: an `OSError` of the system, a `shutil.Error` with
its list, a `SameFileError`, and `RecursionError`. -/
inductive FsError
  | os (e : OsError)
  | shutil (errors : List CopyFault)
  | sameFile
  | recursion

/-- Functions of `os` and `shutil`. -/
abbrev Fs (C A : Type) := Act (Machine C) FsError A

/-- Python's recursion limit: no function gets deeper. -/
def recursionLimit : Nat := 1000

/-- How many directories deep the recursive functions of `os` and `shutil` get, in a process, before
they raise `RecursionError`. The limit is one on the frames of the whole stack, those that the call
stands on included; `makedirs` and `rmtree` take one for each directory, and `copytree` two. -/
structure Depths where
  makedirs : Nat
  copytree : Nat
  rmtree : Nat

/-- The path without its last name. -/
def PosixPath.head (p : PosixPath) : PosixPath := ⟨p.absolute, p.names.dropLast⟩

/-- `head and tail and not path.exists(head)`. -/
def lacksHead (m : Machine C) (p : PosixPath) : Bool :=
  (p.absolute || p.names.dropLast ≠ []) && p.names ≠ [] && !exists? m p.head

/-- `try: mkdir(p)`, where an error is passed over if a directory is there. -/
def mkdirExistOk (p : PosixPath) : Fs C Unit := do
  match ← (mkdir p).attempt with
  | .ok () => pure ()
  | .error e =>
    if ← Act.read (isdir · p) then pure ()
    else Act.raise (.os e)

/-- `try: x`, `except FileExistsError: pass`. -/
def passFileExists (x : Fs C Unit) : Fs C Unit := do
  match ← x.attempt with
  | .ok () => pure ()
  | .error (.os .fileExists) => pure ()
  | .error e => Act.raise e

/-- `os.makedirs(p, exist_ok=True)`. -/
def makedirs : (fuel : Nat) → PosixPath → Fs C Unit
  | 0, _ => Act.raise .recursion
  | fuel + 1, p => do
    if ← Act.read (lacksHead · p) then
      passFileExists (makedirs fuel p.head)
      if p.basename = "." then pure () else mkdirExistOk p
    else mkdirExistOk p

/-- `shutil.copystat`. -/
def copystat (src dst : PosixPath) : Sys C Unit := do
  checkFault
  Act.readE fun m =>
    if exists? m src && exists? m dst then .ok () else .error .fileNotFound

/-- `shutil.copyfile`. -/
def copyfile [Inhabited C] (src dst : PosixPath) : Fs C Unit := do
  if ← Act.read (samefile · src dst) then Act.raise .sameFile
  else
    Act.mapError .os do
      let p ← openRead src
      let q ← openWrite dst
      let content ← readAt p
      writeAt q content

/-- `shutil.copy2`. -/
def copy2 [Inhabited C] (src dst : PosixPath) : Fs C Unit := do
  let dst ← Act.read fun m => if isdir m dst then dst.child src.basename else dst
  copyfile src dst
  (copystat src dst).mapError .os

/-- One entry of the directory `src`, copied to `dst`. -/
def copyEntry [Inhabited C] (copytree : PosixPath → PosixPath → Fs C Unit) (src dst : PosixPath)
    (entry : String × EntryKind) : Fs C Unit :=
  match entry.2 with
  | .dir => copytree (src.child entry.1) (dst.child entry.1)
  | .file => copy2 (src.child entry.1) (dst.child entry.1)
  | .link => do
    (readlink (src.child entry.1)).mapError .os
    if ← (linkIsDir (src.child entry.1)).mapError .os then
      copytree (src.child entry.1) (dst.child entry.1)
    else copy2 (src.child entry.1) (dst.child entry.1)

/-- What an exception adds to the list of errors; `RecursionError` is not caught. -/
def FsError.faults (src dst : PosixPath) : FsError → Option (List CopyFault)
  | .os e => some [.entry src dst e]
  | .shutil errors => some errors
  | .sameFile => some [.text "are the same file"]
  | .recursion => none

/-- The loop over the entries, with the errors it collects. -/
def copyEntries [Inhabited C] (copytree : PosixPath → PosixPath → Fs C Unit)
    (src dst : PosixPath) : List (String × EntryKind) → Fs C (List CopyFault)
  | [] => pure []
  | entry :: entries => do
    match ← (copyEntry copytree src dst entry).attempt with
    | .ok () => copyEntries copytree src dst entries
    | .error e =>
      match e.faults (src.child entry.1) (dst.child entry.1) with
      | none => Act.raise e
      | some errors => do
        let rest ← copyEntries copytree src dst entries
        pure (errors ++ rest)

/-- `copystat(src, dst)` at the end of a directory, its error added to the list. -/
def copystatOf (src dst : PosixPath) (errors : List CopyFault) : Fs C (List CopyFault) := do
  match ← (copystat src dst).attempt with
  | .ok () => pure errors
  | .error e => pure (errors ++ [.entry src dst e])

/-- `shutil.copytree(src, dst, dirs_exist_ok=True)`. -/
def copytree [Inhabited C] : (fuel : Nat) → (src dst : PosixPath) → Fs C Unit
  | 0, _, _ => Act.raise .recursion
  | fuel + 1, src, dst => do
    let entries ← (scandir src).mapError .os
    makedirs recursionLimit dst
    let errors ← copyEntries (copytree fuel) src dst entries
    let errors ← copystatOf src dst errors
    if errors.isEmpty then pure () else Act.raise (.shutil errors)

/-- The loop of `rmtree` over the entries of a directory. -/
def removeEntries (removeTree : Location → Fs C Unit) (q : Location) :
    List (String × EntryKind) → Fs C Unit
  | [] => pure ()
  | (name, kind) :: entries => do
    match kind with
    | .dir => removeTree (q ++ [name])
    | _ => (unlinkAt (q ++ [name])).mapError .os
    removeEntries removeTree q entries

/-- The recursion of `rmtree`. -/
def removeTree : (fuel : Nat) → Location → Fs C Unit
  | 0, _ => Act.raise .recursion
  | fuel + 1, q => do
    let entries ← Act.read fun m => listing m.disk q
    removeEntries (removeTree fuel) q entries
    (rmdirAt q).mapError .os

/-- `shutil.rmtree`, which refuses links. -/
def rmtree (fuel : Nat) (p : PosixPath) : Fs C Unit := do
  let q ← Act.readE fun m =>
    match lookup m false p with
    | .found q =>
      match m.disk.get? q with
      | some .dir => .ok q
      | some (.link _) => .error (.os (.other "Cannot call rmtree on a symbolic link"))
      | _ => .error (.os .notADirectory)
    | .missing _ => .error (.os .fileNotFound)
    | .error e => .error (.os e)
  removeTree fuel q

end ClawEngine.Posix
