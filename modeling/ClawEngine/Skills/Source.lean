import ClawEngine.Context.Workspace
import ClawEngine.Posix.System

/-!
# Where skills come from

`engine/skills/source.py`. A skill is a directory with a `SKILL.md` in it. A source answers from the
disk at the time it is asked.
-/

set_option autoImplicit false

namespace ClawEngine.Skills

open ClawEngine.Core ClawEngine.Posix ClawEngine.Context

variable {C : Type}

inductive SkillError
  | invalidSkillName (name : String)
  | skillNotFound (name : String)
  deriving DecidableEq, Repr

/-- `validate_skill_name`, whose pattern is that of workspace ids. -/
def validateSkillName (name : String) : Except SkillError Unit :=
  if isPlainName name then .ok () else .error (.invalidSkillName name)

/-- A plain name is a name an entry can have. -/
theorem isEntryName_of_isPlainName {name : String} (h : isPlainName name = true) :
    isEntryName name = true := by
  simp only [isPlainName, Bool.and_eq_true, Bool.not_eq_true', decide_eq_true_eq,
    List.all_eq_true] at h
  obtain ⟨⟨⟨hne, hall⟩, hdot⟩, hup⟩ := h
  have hslash : name.toList.contains '/' = false := by
    rw [← Bool.not_eq_true, List.contains_iff_mem]
    intro hmem
    exact absurd (hall '/' hmem) (by decide)
  simp only [isEntryName, hslash, Bool.not_false, Bool.and_true, Bool.and_eq_true,
    decide_eq_true_eq]
  refine ⟨⟨?_, hdot⟩, hup⟩
  rintro rfl
  exact absurd hne (by decide)

/-- The protocol `SkillSource`. -/
structure SkillSource (C : Type) where
  hasSkill : Machine C → String → Bool
  hasDir : Machine C → String → Bool
  skillDir : Machine C → String → Except SkillError PosixPath

/-- A directory with a `SKILL.md` in it. -/
def isSkill (m : Machine C) (path : PosixPath) : Bool :=
  isdir m path && isfile m (path.child "SKILL.md")

/-- `LocalDirSkillSource`. -/
def localDirSkillSource (root : String) : SkillSource C where
  hasSkill m name := isPlainName name && isSkill m ((PosixPath.ofString root).child name)
  hasDir m name := isPlainName name && isdir m ((PosixPath.ofString root).child name)
  skillDir m name := do
    validateSkillName name
    let path := (PosixPath.ofString root).child name
    if isSkill m path then .ok path else .error (.skillNotFound name)

end ClawEngine.Skills
