import ClawEngine.Core.Json
import ClawEngine.Identity.Contracts
import ClawEngine.Posix.Realpath
import ClawEngine.Skills.Source
import Mathlib.Data.Finset.Sort
import Mathlib.Data.String.Basic

/-!
# SkillProvisioner.provision

`engine/skills/provisioner.py`. The allowed skills a user may use are copied from the source to the
workspace's skills directory. A manifest beside them names the ones the provisioner put there, and
those of them that are no longer wanted are removed.

Files hold a content in `C`. `JsonFile` is what the code uses of the library's `json` on files.
-/

set_option autoImplicit false

namespace ClawEngine.Skills

open ClawEngine.Core ClawEngine.Posix ClawEngine.Context ClawEngine.Identity

variable {C : Type} [Inhabited C]

/-- `_DEFAULT_SKILLS_SUBDIR`. -/
def defaultSkillsSubdir : String := pathJoin ".agents" "skills"

/-- `_MANIFEST_FILE`. -/
def manifestFile : String := ".claw_provisioned.json"

/-- `_MANIFEST_VERSION`. -/
def manifestVersion : Int := 1

/-- The document of a manifest. -/
def manifestOf (managed : List String) : Json :=
  .obj [("version", .int manifestVersion), ("managed", .arr (managed.map .str))]

/-- `json.dump` to and `json.load` from the content of a file, which read back the manifests that
are written. -/
structure JsonFile (C : Type) where
  dump : Json → C
  load : C → Except PyError Json
  load_dump : ∀ managed : List String, (∀ name ∈ managed, isPlainName name = true) →
    load (dump (manifestOf managed)) = .ok (manifestOf managed)

/-- What leaves `provision`: an exception of the file system's functions, of the source, or of the
code's own expressions. -/
inductive ProvisionError
  | fs (e : FsError)
  | skill (e : SkillError)
  | py (e : PyError)

structure ProvisionResult where
  provisioned : List String := []
  denied : List String := []
  missing : List String := []
  invalid : List String := []
  revoked : List String := []
  deriving DecidableEq, Repr

/-- A provisioner, with how deep the functions it calls get. -/
structure SkillProvisioner (C : Type) where
  source : SkillSource C
  identity : IdentityProvider
  json : JsonFile C
  depths : Depths
  skillsSubdir : String := defaultSkillsSubdir

/-- The code of `provision`. -/
abbrev Provision (C A : Type) := Act (Machine C) ProvisionError A

/-- The valid names among the entries of a manifest. -/
def managedNames (entries : List Json) : Finset String :=
  (entries.filterMap fun
    | .str name => if isPlainName name then some name else none
    | _ => none).toFinset

/-- `data.get("managed", [])`, and the loop over it. -/
def readManaged (data : Json) : Except PyError (Finset String) :=
  match data.members? with
  | none => .error ⟨.attributeError, "object has no attribute 'get'"⟩
  | some members => do
    let entries ← (Json.getD members "managed" (.arr [])).iterate
    return managedNames entries

/-- `_read_manifest`. -/
def readManifest (json : JsonFile C) (destRoot : PosixPath) : Provision C (Finset String) := do
  match ← (readFile (destRoot.child manifestFile)).attempt with
  | .error .fileNotFound => pure ∅
  | .error e => Act.raise (.fs (.os e))
  | .ok content =>
    match json.load content with
    | .error e => if e.kind = .jsonDecodeError then pure ∅ else Act.raise (.py e)
    | .ok data => (Act.readE fun _ => readManaged data).mapError .py

/-- `_write_manifest`. -/
def writeManifest (json : JsonFile C) (destRoot : PosixPath) (managed : Finset String) :
    Provision C Unit :=
  (writeFile (destRoot.child manifestFile)
    (json.dump (manifestOf (managed.sort (· ≤ ·))))).mapError fun e => .fs (.os e)

/-- The text of a manifest of these names. -/
def JsonFile.manifest (json : JsonFile C) (names : Finset String) : C :=
  json.dump (manifestOf (names.sort (· ≤ ·)))

/-- The body of the loop over the allowed skills. -/
def provisionSkill (P : SkillProvisioner C) (ws : ResolvedWorkspace) (user : User)
    (destRoot : PosixPath) (result : ProvisionResult) (skill : String) :
    Provision C ProvisionResult :=
  if !isPlainName skill then pure { result with invalid := result.invalid ++ [skill] }
  else if !P.identity.canUseSkill user ws.workspaceId skill then
    pure { result with denied := result.denied ++ [skill] }
  else do
    if ← Act.read (P.source.hasSkill · skill) then
      let src ← (Act.readE (P.source.skillDir · skill)).mapError .skill
      (copytree P.depths.copytree src (destRoot.child skill)).mapError .fs
      pure { result with provisioned := result.provisioned ++ [skill] }
    else if ← Act.read (P.source.hasDir · skill) then
      pure { result with invalid := result.invalid ++ [skill] }
    else pure { result with missing := result.missing ++ [skill] }

/-- The loop over the allowed skills. -/
def provisionSkills (P : SkillProvisioner C) (ws : ResolvedWorkspace) (user : User)
    (destRoot : PosixPath) : List String → ProvisionResult → Provision C ProvisionResult
  | [], result => pure result
  | skill :: skills, result => do
    let result ← provisionSkill P ws user destRoot result skill
    provisionSkills P ws user destRoot skills result

/-- The body of the loop over the skills to revoke: the target must lie below `destRoot`. -/
def revokeSkill (depth : Nat) (destRoot : PosixPath) (destRootReal : Location)
    (revoked : List String) (prevSkill : String) : Provision C (List String) := do
  let targetReal ← (Act.readE (realpath · (destRoot.child prevSkill))).mapError .fs
  if commonPath destRootReal targetReal ≠ destRootReal || targetReal = destRootReal then
    pure revoked
  else if ← Act.read (isdir · ⟨true, targetReal⟩) then
    (rmtree depth ⟨true, targetReal⟩).mapError .fs
    pure (revoked ++ [prevSkill])
  else pure revoked

/-- The loop over the skills to revoke. -/
def revokeSkills (depth : Nat) (destRoot : PosixPath) (destRootReal : Location) :
    List String → List String → Provision C (List String)
  | [], revoked => pure revoked
  | prevSkill :: skills, revoked => do
    let revoked ← revokeSkill depth destRoot destRootReal revoked prevSkill
    revokeSkills depth destRoot destRootReal skills revoked

/-- `os.path.join(workspace.cwd, self._skills_subdir)`. -/
def SkillProvisioner.destRoot (P : SkillProvisioner C) (ws : ResolvedWorkspace) : PosixPath :=
  PosixPath.ofString (pathJoin ws.cwd P.skillsSubdir)

/-- `SkillProvisioner.provision`. -/
def SkillProvisioner.provision (P : SkillProvisioner C) (ws : ResolvedWorkspace) (user : User) :
    Provision C ProvisionResult := do
  let destRoot := P.destRoot ws
  (makedirs P.depths.makedirs destRoot).mapError .fs
  let prevManaged ← readManifest P.json destRoot
  let result ← provisionSkills P ws user destRoot ws.allowedSkills {}
  let effective := result.provisioned.toFinset
  let destRootReal ← (Act.readE (realpath · destRoot)).mapError .fs
  let revoked ← revokeSkills P.depths.rmtree destRoot destRootReal
    ((prevManaged \ effective).sort (· ≤ ·)) []
  writeManifest P.json destRoot effective
  pure { result with revoked }

/-! ## Parts of a call -/

/-- The names a call looks for to remove: the managed ones that it has not written. -/
def outdated (prev : Finset String) (provisioned : List String) : List String :=
  (prev \ provisioned.toFinset).sort (· ≤ ·)

/-- The code of `provision` once `dest_root` is made. -/
def SkillProvisioner.provisionOpened (P : SkillProvisioner C) (ws : ResolvedWorkspace)
    (user : User) : Provision C ProvisionResult := do
  let destRoot := P.destRoot ws
  let prevManaged ← readManifest P.json destRoot
  let result ← provisionSkills P ws user destRoot ws.allowedSkills {}
  let effective := result.provisioned.toFinset
  let destRootReal ← (Act.readE (realpath · destRoot)).mapError .fs
  let revoked ← revokeSkills P.depths.rmtree destRoot destRootReal
    ((prevManaged \ effective).sort (· ≤ ·)) []
  writeManifest P.json destRoot effective
  pure { result with revoked }

/-- A call up to where it writes the manifest: what it has provisioned, and what removed. -/
def SkillProvisioner.upToManifest (P : SkillProvisioner C) (ws : ResolvedWorkspace)
    (user : User) : Provision C (ProvisionResult × List String) := do
  let destRoot := P.destRoot ws
  let prevManaged ← readManifest P.json destRoot
  let result ← provisionSkills P ws user destRoot ws.allowedSkills {}
  let effective := result.provisioned.toFinset
  let destRootReal ← (Act.readE (realpath · destRoot)).mapError .fs
  let revoked ← revokeSkills P.depths.rmtree destRoot destRootReal
    ((prevManaged \ effective).sort (· ≤ ·)) []
  pure (result, revoked)

end ClawEngine.Skills
