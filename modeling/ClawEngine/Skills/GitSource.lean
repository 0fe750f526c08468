import ClawEngine.Core.Json
import ClawEngine.Core.PyText
import ClawEngine.Posix.Pathlib
import ClawEngine.Skills.Source
import Mathlib.Data.List.Sort

/-!
# GitSkillSource

`adapters/skills/git/source.py`. A source that checks a repository out into a cache directory and
then answers from there like a local directory. `git` is a parameter: a process that is started with
an argv in a working directory, changes the machine, and exits.

`refresh` runs on the source itself, whose `ref` and local source it rebinds, and on the machine.
The argv of every process it starts is recorded.
-/

set_option autoImplicit false

namespace ClawEngine.Skills

open ClawEngine.Core ClawEngine.Posix ClawEngine.Context

variable {C : Type}

/-- How `subprocess.run` ends. It raises a `ValueError` on an argument that holds a NUL, and on an
output that does not decode (`text=True`). -/
inductive GitProcess
  | notFound
  | osError (text : String)
  | valueError (text : String)
  | exited (returncode : Int) (stdout stderr : String)

/-- What the adapter uses of its surroundings: the interpreter's texts, `str` of an `OSError` about
a path, `str.lower`, and the `git` on the path. -/
structure GitHost (C : Type) where
  py : Interpreter
  osText : PosixPath → FsError → String
  lower : String → String
  git : (argv : List String) → (cwd : String) → Machine C → GitProcess × Machine C

structure GitSkillSourceError where
  message : String
  stage : String
  returncode : Int := 0
  stderr : String := ""
  deriving DecidableEq, Repr

/-- What leaves the constructor and `refresh`. -/
inductive RefreshError
  | value (message : String)
  | git (e : GitSkillSourceError)
  | fs (e : FsError)

/-! ## Validation of paths -/

/-- `_STDERR_TRIM`. -/
def stderrTrim : Nat := 1000

/-- `_MAX_PATH_LEN`. -/
def maxPathLen : Nat := 256

/-- A rejection of an entry of `allowed_skill_paths`. -/
def rejectPath {A : Type} (message : String) : Except GitSkillSourceError A :=
  .error { message, stage := "validate" }

/-- The loop over the segments of a path. -/
def validateSegments (py : Interpreter) (p : String) :
    List String → Except GitSkillSourceError Unit
  | [] => .ok ()
  | segment :: segments =>
    if segment = "" then
      rejectPath ("allowed_skill_paths entry has empty segment (double slash?): " ++ reprStr py p)
    else if segment = ".." then
      rejectPath ("allowed_skill_paths entry contains '..' traversal: " ++ reprStr py p)
    else validateSegments py p segments

/-- `p.split("/")`. -/
def pathSegments (p : String) : List String := (splitNames p.toList).map String.ofList

/-- `_validate_allowed_path`. -/
def validateAllowedPath (py : Interpreter) (p : String) : Except GitSkillSourceError Unit :=
  if p ≠ strip p then
    rejectPath ("allowed_skill_paths entry has leading/trailing whitespace: " ++ reprStr py p)
  else if maxPathLen < p.length then
    rejectPath ("allowed_skill_paths entry too long (" ++ toString p.length ++ " > " ++
      toString maxPathLen ++ "): " ++ reprStr py p)
  else if p.toList.head? = some '/' ∨ p.toList.head? = some '\\' then
    rejectPath ("allowed_skill_paths entry is absolute: " ++ reprStr py p)
  else if (PosixPath.ofString p).absolute then
    rejectPath ("allowed_skill_paths entry is absolute: " ++ reprStr py p)
  else if '\\' ∈ p.toList then
    rejectPath ("allowed_skill_paths entry contains backslash: " ++ reprStr py p)
  else do
    validateSegments py p (pathSegments p)
    match validateSkillName (baseName p) with
    | .ok () => .ok ()
    | .error _ =>
      rejectPath ("allowed_skill_paths basename is not a valid skill name: " ++
        reprStr py (baseName p))

/-- The loop over `allowed_skill_paths`. -/
def validateAllowedPaths (py : Interpreter) : List String → Except GitSkillSourceError Unit
  | [] => .ok ()
  | p :: paths => do
    validateAllowedPath py p
    validateAllowedPaths py paths

/-! ## The source -/

/-- `localRoot` is the root of the local source that answers after a refresh. -/
structure GitSkillSource where
  repoUrl : String
  ref : String
  cacheDir : PosixPath
  allowedSkillPaths : Option (List String)
  localRoot : Option String := none
  deriving DecidableEq, Repr

/-- The constructor. -/
def GitSkillSource.create (repoUrl ref cacheDir : String)
    (allowedSkillPaths : Option (List String)) : Except RefreshError GitSkillSource :=
  if repoUrl = "" then .error (.value "repo_url must be a non-empty string")
  else if ref = "" then .error (.value "ref must be a non-empty string")
  else .ok { repoUrl, ref, cacheDir := purePath cacheDir, allowedSkillPaths }

/-- `ref` is the commit that is checked out. -/
structure RefreshResult where
  ref : String
  materializedPaths : List String
  deriving DecidableEq, Repr

/-- What `refresh` acts on; `calls` are the argv of the processes it started. -/
structure Refreshing (C : Type) where
  source : GitSkillSource
  machine : Machine C
  calls : List (List String) := []

/-- The code of `refresh`. -/
abbrev Refresh (C A : Type) := Act (Refreshing C) RefreshError A

/-- Code on the machine, with its exceptions under another name. -/
def onMachine {A : Type} (f : FsError → RefreshError) (x : Fs C A) : Refresh C A := fun s =>
  match x s.machine with
  | (.ok a, m) => (.ok a, { s with machine := m })
  | (.error e, m) => (.error (f e), { s with machine := m })

/-- A question about the machine. -/
def ask {A : Type} (f : Machine C → A) : Refresh C A := Act.read fun s => f s.machine

/-- `except OSError`, which a `RecursionError` passes. -/
def FsError.orRaise (f : FsError → RefreshError) : FsError → RefreshError
  | .recursion => .fs .recursion
  | e => f e

/-- `subprocess.run(argv, cwd=cwd)`. -/
def runGit (host : GitHost C) (argv : List String) (cwd : PosixPath) : Refresh C GitProcess :=
  fun s =>
    let ended := host.git argv cwd.text s.machine
    (.ok ended.1, { s with machine := ended.2, calls := s.calls ++ [argv] })

/-- The stage label of a command, its first argument. -/
def gitStage : List String → String
  | [] => "invoke"
  | arg :: _ => arg

/-- What `_git` makes of a process that ended: its standard output, if it exited with 0. -/
def gitResult (args : List String) : GitProcess → Except RefreshError String
  | .notFound =>
    .error (.git { message := "git executable not found on PATH", stage := "invoke" })
  | .osError text =>
    .error (.git { message := "OS error invoking git: " ++ text, stage := "invoke" })
  | .valueError text => .error (.value text)
  | .exited returncode stdout stderr =>
    if returncode ≠ 0 then
      let trimmed := String.ofList (stderr.toList.take stderrTrim)
      .error (.git
        { message := "git " ++ gitStage args ++ " failed (exit " ++ toString returncode ++ "): " ++
            trimmed
          stage := gitStage args, returncode, stderr := trimmed })
    else .ok stdout

/-- `_git`. -/
def git (host : GitHost C) (args : List String) (cwd : PosixPath) : Refresh C String := do
  let process ← runGit host ("git" :: args) cwd
  Act.readE fun _ => gitResult args process

/-! ## refresh -/

/-- An assignment to fields of the source. -/
def update (f : GitSkillSource → GitSkillSource) : Refresh C Unit := fun s =>
  (.ok (), { s with source := f s.source })

/-- The override of `ref`. -/
def rebindRef : Option String → Refresh C Unit
  | none => pure ()
  | some ref =>
    if ref = "" then Act.raise (.value "ref override must be a non-empty string")
    else update fun source => { source with ref }

/-- The check of `allowed_skill_paths`, before any process is started. -/
def checkPaths (py : Interpreter) (source : GitSkillSource) : Refresh C Unit :=
  match source.allowedSkillPaths with
  | none => pure ()
  | some paths => (Act.readE fun _ => validateAllowedPaths py paths).mapError .git

/-- `cache_dir` is made where it is missing. -/
def ensureCacheDir (host : GitHost C) (source : GitSkillSource) : Refresh C Unit :=
  onMachine (FsError.orRaise fun e => .git
      { message := "Failed to create cache_dir " ++ source.cacheDir.text ++ ": " ++
          host.osText source.cacheDir e
        stage := "mkdir" })
    (mkdirParents recursionLimit source.cacheDir)

/-- The clone, where `cache_dir` is no git repository yet. -/
def cloneMissing (host : GitHost C) (source : GitSkillSource) : Refresh C Unit := do
  if ← ask (exists? · (source.cacheDir.child ".git")) then pure ()
  else
    let _ ← git host ["clone", "--depth=1", "--filter=blob:none", "--no-checkout", source.repoUrl,
      source.cacheDir.text] source.cacheDir.head
    pure ()

/-- `sub in text`. -/
def hasText (sub text : String) : Bool := text.toList.tails.any sub.toList.isPrefixOf

/-- The failure of `sparse-checkout disable` that is passed over: an old git does not know the
command. -/
def isUnknownCommand (host : GitHost C) (e : GitSkillSourceError) : Bool :=
  hasText "unknown" (host.lower e.stderr) || hasText "is not a git command" (host.lower e.stderr)

/-- The sparse-checkout of the allowed paths, or none. -/
def setSparse (host : GitHost C) (source : GitSkillSource) : Refresh C Unit :=
  match source.allowedSkillPaths with
  | some paths => do
    let _ ← git host ["sparse-checkout", "init", "--cone"] source.cacheDir
    let _ ← git host ("sparse-checkout" :: "set" :: paths) source.cacheDir
    pure ()
  | none => do
    match ← (git host ["sparse-checkout", "disable"] source.cacheDir).attempt with
    | .ok _ => pure ()
    | .error (.git e) => if isUnknownCommand host e then pure () else Act.raise (.git e)
    | .error e => Act.raise e

/-- Fetch and checkout; the commit that is checked out. -/
def checkOut (host : GitHost C) (source : GitSkillSource) : Refresh C String := do
  let _ ← git host ["fetch", "--depth=1", "origin", source.ref] source.cacheDir
  let _ ← git host ["checkout", "--detach", "FETCH_HEAD"] source.cacheDir
  let stdout ← git host ["rev-parse", "HEAD"] source.cacheDir
  pure (strip stdout)

/-- The removal of an overlay entry a previous refresh left. -/
def clearStale (link : PosixPath) : Fs C Unit := do
  if ← Act.read fun m => isSymlink m link || exists? m link then
    if ← Act.read fun m => isSymlink m link || isfile m link then (unlink link).mapError .os
    else rmtree recursionLimit link
  else pure ()

/-- The overlay entry of an allowed path. -/
def linkAllowed (host : GitHost C) (cacheDir flatDir : PosixPath) (p : String) :
    Refresh C Unit := do
  let link := flatDir.child (baseName p)
  onMachine (FsError.orRaise fun e => .git
      { message := "Failed to clear stale overlay entry " ++ link.text ++ ": " ++
          host.osText link e
        stage := "refresh" })
    (clearStale link)
  let target := cacheDir.joinText p
  if ← ask (exists? · target) then onMachine .fs ((symlinkTo link target.text).mapError .os)
  else pure ()

/-- The loop that builds the overlay. -/
def linkAll (host : GitHost C) (cacheDir flatDir : PosixPath) : List String → Refresh C Unit
  | [] => pure ()
  | p :: paths => do
    linkAllowed host cacheDir flatDir p
    linkAll host cacheDir flatDir paths

/-- The directory of the overlay. -/
def flatDirOf (source : GitSkillSource) : PosixPath := source.cacheDir.child ".claw_skills_flat"

/-- The names of the directories in `cache_dir` that do not start with a dot. -/
def dirNames (source : GitSkillSource) : Refresh C (List String) := do
  let names ← onMachine .fs ((iterdir source.cacheDir).mapError .os)
  ask fun m => (names.insertionSort (· ≤ ·)).filter fun name =>
    isdir m (source.cacheDir.child name) && name.toList.head? ≠ some '.'

/-- `self._local = LocalDirSkillSource(root)`. -/
def bindLocal (root : PosixPath) : Refresh C Unit :=
  update fun source => { source with localRoot := some root.text }

/-- The local source over the checkout, and the names of its skills. -/
def buildLocal (host : GitHost C) (source : GitSkillSource) : Refresh C (List String) :=
  match source.allowedSkillPaths with
  | some paths =>
    if paths.any (hasText "/") then do
      onMachine .fs (mkdirHere (flatDirOf source))
      linkAll host source.cacheDir (flatDirOf source) paths
      bindLocal (flatDirOf source)
      pure (paths.map baseName)
    else do
      bindLocal source.cacheDir
      pure (paths.map baseName)
  | none => do
    let names ← dirNames source
    bindLocal source.cacheDir
    pure names

/-- `refresh`. -/
def refresh (host : GitHost C) (ref : Option String) : Refresh C RefreshResult := do
  rebindRef ref
  let source ← Act.read Refreshing.source
  checkPaths host.py source
  ensureCacheDir host source
  cloneMissing host source
  setSparse host source
  let sha ← checkOut host source
  let names ← buildLocal host source
  pure { ref := sha, materializedPaths := names }

/-! ### The steps that start no process -/

section Steps

variable {s s' : Refreshing C}

/-- The state with the ref in force. -/
def Refreshing.withRef (s : Refreshing C) (ref : Option String) : Refreshing C :=
  { s with source := { s.source with ref := ref.getD s.source.ref } }

theorem rebindRef_eq (ref : Option String) (s : Refreshing C) :
    rebindRef ref s = (.ok (), s.withRef ref) ∨ ∃ e, rebindRef ref s = (.error e, s) := by
  cases ref with
  | none => exact .inl rfl
  | some ref =>
    rw [rebindRef]
    by_cases hempty : ref = ""
    · rw [if_pos hempty]
      exact .inr ⟨_, rfl⟩
    · rw [if_neg hempty]
      exact .inl rfl

theorem checkPaths_eq (py : Interpreter) (source : GitSkillSource) (s : Refreshing C) :
    checkPaths py source s = (.ok (), s) ∧
        (∀ paths, source.allowedSkillPaths = some paths →
          validateAllowedPaths py paths = .ok ()) ∨
      ∃ e, checkPaths py source s = (.error e, s) := by
  unfold checkPaths
  cases source.allowedSkillPaths with
  | none => exact .inl ⟨rfl, nofun⟩
  | some paths =>
    dsimp only
    cases hpaths : validateAllowedPaths py paths with
    | error e => exact .inr ⟨_, rfl⟩
    | ok u =>
      refine .inl ⟨rfl, fun paths' h => ?_⟩
      cases h
      exact hpaths

/-- Code on the machine leaves the source and the calls. -/
theorem onMachine_snd {A : Type} (f : FsError → RefreshError) (x : Fs C A) (s : Refreshing C) :
    (onMachine f x s).2 = { s with machine := (x s.machine).2 } := by
  unfold onMachine
  cases x s.machine with
  | mk answer m => cases answer <;> rfl

/-- What does not depend on the machine is kept by code on it. -/
theorem keeps_onMachine {A : Type} {I : Refreshing C → Prop}
    (hI : ∀ s m, I s → I { s with machine := m }) {f : FsError → RefreshError} {x : Fs C A} :
    Act.Keeps I (onMachine f x) := by
  intro s hs
  rw [onMachine_snd]
  exact hI s _ hs

theorem linkAll_keeps {host : GitHost C} {I : Refreshing C → Prop}
    (hI : ∀ s m, I s → I { s with machine := m }) (cacheDir flatDir : PosixPath)
    (paths : List String) : Act.Keeps I (linkAll host cacheDir flatDir paths) := by
  induction paths with
  | nil => exact Act.keeps_pure ()
  | cons p paths ih =>
    refine Act.Keeps.bind ?_ fun _ => ih
    refine (keeps_onMachine hI).bind fun _ => (Act.keeps_read _).bind fun found => ?_
    split
    · exact keeps_onMachine hI
    · exact Act.keeps_pure ()

theorem ensureCacheDir_snd (host : GitHost C) (source : GitSkillSource) (s : Refreshing C) :
    (ensureCacheDir host source s).2 =
      { s with machine := (mkdirParents recursionLimit source.cacheDir s.machine).2 } :=
  onMachine_snd _ _ s

end Steps

/-! ## Reading -/

/-- `has_skill`, `has_dir` and `skill_dir`: those of the local source, once there is one. -/
def GitSkillSource.reader (source : GitSkillSource) : SkillSource C where
  hasSkill m name :=
    match source.localRoot with
    | none => false
    | some root => (localDirSkillSource root).hasSkill m name
  hasDir m name :=
    match source.localRoot with
    | none => false
    | some root => (localDirSkillSource root).hasDir m name
  skillDir m name :=
    match source.localRoot with
    | none => do
      validateSkillName name
      .error (.skillNotFound name)
    | some root => (localDirSkillSource root).skillDir m name

end ClawEngine.Skills
