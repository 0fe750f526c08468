import ClawEngine.Core.Regex
import ClawEngine.Laws.Materialized
import ClawEngine.Laws.SecretPaths
import ClawEngine.Posix.Normpath

/-!
# Identifiers that become paths

A workspace id is joined to the root of the workspaces, a skill name to the root of a source, an
allowed path to the directory of a checkout. Of each validator: what it accepts, joined to any root
and normalised, is strictly below the root. Ids and names are directly below it, and two of them are
apart. The validators of names are three patterns written three times, each with its own exceptions;
each accepts the plain names and no other text.
-/

set_option autoImplicit false

namespace ClawEngine.Skills

open ClawEngine.Core ClawEngine.Posix ClawEngine.Context ClawEngine.Secrets

/-! ## The guards -/

/-- `re.compile(r"[A-Za-z0-9_.-]+")`. -/
def nameRe : List RegexPiece := [.some isNameChar]

/-- What `_validate_workspace_id` and `validate_skill_name` reject. -/
def rejectsName (name : String) : Bool :=
  (name = "." || name = "..") || !Regex.isFullMatch nameRe name

/-- What `get_secrets` rejects. -/
def rejectsForUrl (workspaceId : String) : Bool :=
  workspaceId.isEmpty || (workspaceId = "." || workspaceId = "..") ||
    !Regex.isFullMatch nameRe workspaceId

/-- `str.splitlines` ends a line at the character. -/
def isLineBreak (c : Char) : Bool :=
  let n := c.toNat
  (10 ≤ n && n ≤ 13) || (28 ≤ n && n ≤ 30) || n == 0x85 || n == 0x2028 || n == 0x2029

/-- A slash, a backslash, NUL or a line break. -/
def isPathControl (c : Char) : Bool := c = '/' || c = '\\' || c.toNat = 0 || isLineBreak c

section Guards

variable {name : String}

theorem isFullMatch_nameRe : Regex.isFullMatch nameRe name =
    (!name.isEmpty && name.toList.all isNameChar) := by
  rw [Bool.eq_iff_iff, nameRe, Regex.isFullMatch_some, Bool.and_eq_true, Bool.not_eq_true',
    ← Bool.not_eq_true, String.isEmpty_iff, List.all_eq_true]

theorem rejectsName_eq : rejectsName name = !isPlainName name := by
  rw [rejectsName, isFullMatch_nameRe, isPlainName]
  cases name.isEmpty <;> cases name.toList.all isNameChar <;>
    cases hdot : decide (name = ".") <;> cases hup : decide (name = "..") <;>
    simp only [ne_eq, decide_not, hdot, hup] <;> rfl

theorem rejectsForUrl_eq : rejectsForUrl name = !isPlainName name := by
  rw [← rejectsName_eq, rejectsForUrl, rejectsName, isFullMatch_nameRe]
  cases name.isEmpty <;> cases name.toList.all isNameChar <;>
    cases decide (name = ".") <;> cases decide (name = "..") <;> rfl

theorem validateWorkspaceId_eq_ok :
    validateWorkspaceId name = .ok () ↔ isPlainName name = true := by
  unfold validateWorkspaceId
  cases isPlainName name with
  | true => exact iff_of_true rfl rfl
  | false => exact iff_of_false (fun h => by cases h) Bool.false_ne_true

theorem validateSkillName_eq_ok : validateSkillName name = .ok () ↔ isPlainName name = true := by
  unfold validateSkillName
  cases isPlainName name with
  | true => exact iff_of_true rfl rfl
  | false => exact iff_of_false (fun h => by cases h) Bool.false_ne_true

/-- A character of a name separates and ends nothing. -/
theorem not_isNameChar_of_control {c : Char} (h : isPathControl c = true) :
    isNameChar c = false := by
  have hcode : ∀ n : Nat, c.toNat = n → c = Char.ofNat n := by
    rintro n rfl
    exact (Char.ofNat_toNat c).symm
  simp only [isPathControl, isLineBreak, Bool.or_eq_true, decide_eq_true_eq, Bool.and_eq_true,
    beq_iff_eq] at h
  rcases h with ((rfl | rfl) | hnul) | hbreak
  · decide
  · decide
  · rw [hcode 0 hnul]
    decide
  · have hall : ∀ n ∈ [10, 11, 12, 13, 28, 29, 30, 0x85, 0x2028, 0x2029],
        isNameChar (Char.ofNat n) = false := by decide
    rw [hcode _ rfl]
    refine hall _ ?_
    simp only [List.mem_cons, List.not_mem_nil, or_false]
    omega

/-- A name without characters, or with one that separates or ends something, is none. -/
theorem not_isPlainName (h : name = "" ∨ name = "." ∨ name = ".." ∨
    ∃ c ∈ name.toList, isPathControl c = true) : isPlainName name = false := by
  rw [← Bool.not_eq_true, isPlainName_iff]
  rintro ⟨hsafe, hall⟩
  rcases h with rfl | rfl | rfl | ⟨c, hc, hcontrol⟩
  · exact hsafe.1 rfl
  · exact hsafe.2.1 rfl
  · exact hsafe.2.2 rfl
  · have hname := not_isNameChar_of_control hcontrol
    rw [hall c hc] at hname
    cases hname

end Guards

/-! ## Below the root -/

section Below

variable {root name p : String}

theorem components_of_isPlainName (h : isPlainName name = true) : components name = [name] := by
  rw [components, splitNames_segment (plain_noSlash h), List.map_singleton, String.ofList_toList]

theorem isPlainName_ne (h : isPlainName name = true) : name ≠ "" ∧ name ≠ "." ∧ name ≠ ".." := by
  refine ⟨?_, ?_, ?_⟩ <;> (rintro rfl; revert h; decide)

/-- What a root with a plain name after it is normalised to. -/
theorem normalOf_plain (root : String) (h : isPlainName name = true) :
    normalOf (normpath (pathJoin root name)) =
      ⟨(normalOf root).slashes, (normalOf root).names ++ [name]⟩ := by
  obtain ⟨hempty, hdot, hup⟩ := isPlainName_ne h
  have hrelative : name.toList.head? ≠ some '/' :=
    fun hhead => plain_noSlash h (List.mem_of_head? hhead)
  have hcomponents := components_of_isPlainName h
  have hdown : ".." ∉ components name := by
    rw [hcomponents, List.mem_singleton]
    exact Ne.symm hup
  have hkept : [name].filter isKept = [name] :=
    List.filter_eq_self.mpr (List.forall_mem_singleton.mpr (decide_eq_true ⟨hempty, hdot⟩))
  rw [normalOf_normpath, normalOf_pathJoin hrelative hdown, hcomponents, hkept]

theorem directlyBelow_plain (root : String) (h : isPlainName name = true) :
    DirectlyBelow root (normpath (pathJoin root name)) :=
  ⟨name, (isPlainName_ne h).2.2, normalOf_plain root h⟩

/-- Two names give two directories, neither inside the other. -/
theorem plain_apart (root : String) {name' : String} (h : isPlainName name = true)
    (h' : isPlainName name' = true) (hne : name ≠ name') :
    normpath (pathJoin root name) ≠ normpath (pathJoin root name') ∧
      ¬ StrictlyBelow (normpath (pathJoin root name)) (normpath (pathJoin root name')) ∧
      ¬ StrictlyBelow (normpath (pathJoin root name')) (normpath (pathJoin root name)) := by
  have hname := directlyBelow_plain root h
  have hname' := directlyBelow_plain root h'
  refine ⟨fun hsame => hne ?_, hname.not_below hname', hname'.not_below hname⟩
  have hnormal := normalOf_plain root h
  rw [hsame, normalOf_plain root h'] at hnormal
  exact (List.singleton_inj.mp (List.append_cancel_left (Normal.mk.inj hnormal).2)).symm

/-- The segments of an allowed path. -/
theorem validateSegments_ok {py : Interpreter} {segments : List String}
    (h : validateSegments py p segments = .ok ()) :
    ∀ segment ∈ segments, segment ≠ "" ∧ segment ≠ ".." := by
  induction segments with
  | nil => exact List.forall_mem_nil _
  | cons segment segments ih =>
    unfold validateSegments at h
    split at h
    · exact absurd h rejectPath_ne_ok
    next hempty =>
      split at h
      · exact absurd h rejectPath_ne_ok
      next hup => exact List.forall_mem_cons.mpr ⟨⟨hempty, hup⟩, ih h⟩

theorem validateAllowedPath_segments {py : Interpreter} (h : validateAllowedPath py p = .ok ()) :
    ∀ segment ∈ components p, segment ≠ "" ∧ segment ≠ ".." := by
  unfold validateAllowedPath at h
  iterate 5
    split at h
    · exact absurd h rejectPath_ne_ok
  obtain ⟨_, hsegments, -⟩ := except_bind_eq_ok.mp h
  exact validateSegments_ok hsegments

/-- An allowed path has a name that counts: its last. -/
theorem kept_of_allowed {py : Interpreter} (h : validateAllowedPath py p = .ok ()) :
    (components p).filter isKept ≠ [] := by
  have hname := validateAllowedPath_name h
  obtain ⟨hempty, hdot, -⟩ := isPlainName_ne hname
  have hmem : baseName p ∈ components p := by
    have hlast := List.getLast?_eq_some_getLast (splitNames_ne_nil p.toList)
    rw [baseName, hlast]
    exact List.mem_map_of_mem (List.mem_of_getLast? hlast)
  exact List.ne_nil_of_mem (List.mem_filter.mpr ⟨hmem, decide_eq_true ⟨hempty, hdot⟩⟩)

theorem strictlyBelow_allowed {py : Interpreter} (root : String)
    (h : validateAllowedPath py p = .ok ()) :
    StrictlyBelow root (normpath (pathJoin root p)) := by
  have hdown : ".." ∉ components p := fun hup => (validateAllowedPath_segments h _ hup).2 rfl
  refine ⟨(components p).filter isKept, kept_of_allowed h, ?_, ?_⟩
  · exact fun hup => hdown (List.mem_filter.mp hup).1
  · rw [normalOf_normpath, normalOf_pathJoin (validateAllowedPath_relative h) hdown]

theorem purePath_names (p : String) : (purePath p).names = (components p).filter isKept := by
  have hkept : ∀ cs : List Char, isKept (String.ofList cs) =
      (decide (String.ofList cs ≠ ".") && decide (cs ≠ [])) := by
    intro cs
    have hempty : String.ofList cs = "" ↔ cs = [] := by
      rw [← String.toList_eq_nil_iff, String.toList_ofList]
    simp only [isKept, ne_eq, hempty, Bool.decide_and, Bool.and_comm]
  have hnames : (purePath p).names = (namesOf p.toList).filter (· ≠ ".") := rfl
  rw [hnames, namesOf, components, List.filter_map, List.filter_filter, List.filter_map]
  exact congrArg _ (List.filter_congr fun cs _ => (hkept cs).symm)

/-- The same of a `Path`, as the checkout joins its directory and an allowed path. -/
theorem strictlyBelow_allowed_path {py : Interpreter} (root : String)
    (h : validateAllowedPath py p = .ok ()) :
    StrictlyBelow (purePath root).text (normpath ((purePath root).joinText p).text) := by
  have hdown : ".." ∉ components p := fun hup => (validateAllowedPath_segments h _ hup).2 rfl
  have hnames := purePath_names p
  have hjoin : (purePath root).joinText p =
      ⟨(purePath root).absolute, (purePath root).names ++ (components p).filter isKept⟩ := by
    rw [joinText_relative _ (validateAllowedPath_relative h), hnames]
    rfl
  have hup : ".." ∉ (components p).filter isKept := fun hup => hdown (List.mem_filter.mp hup).1
  refine ⟨(components p).filter isKept, kept_of_allowed h, hup, ?_⟩
  have hsliced : ∀ name ∈ ((purePath root).joinText p).names, Sliced name := by
    rw [hjoin, ← hnames]
    exact List.forall_mem_append.mpr ⟨purePath_sliced root, purePath_sliced p⟩
  rw [normalOf_normpath, normalOf_pathText hsliced, normalOf_pathText (purePath_sliced root), hjoin,
    List.foldl_append, foldl_normStep hup, List.filter_filter]
  simp only [Bool.and_self]

end Below

/-! ## All identifiers -/

/-- The text is what `_validate_workspace_id` accepts. -/
def AcceptedId (name : String) : Prop := validateWorkspaceId name = .ok ()

/-- The text is what `validate_skill_name` accepts. -/
def AcceptedSkill (name : String) : Prop := validateSkillName name = .ok ()

/-- The guard of `get_secrets`. -/
def secretsGuard (py : OpenBaoLib) (workspaceId : String) : Except OpenBaoError Unit :=
  refuseIf (rejectsForUrl workspaceId)
    ("Invalid workspace_id (path-traversal / URL-injection guard): " ++
      reprStr py.toInterpreter workspaceId ++
      ". Must match [A-Za-z0-9_.-]+ and not be '.' or '..'.")

/-- `get_secrets` starts with its guard. -/
theorem requestPath_eq (py : OpenBaoLib) (provider : OpenBaoSecretProvider)
    (workspaceId : String) : provider.requestPath py workspaceId = (do
      secretsGuard py workspaceId
      let path ← formatTemplate py provider.pathTemplate workspaceId
      return "/v1/" ++ provider.mount ++ "/data/" ++ String.ofList path) := by
  rw [secretsGuard, rejectsForUrl_eq]
  rfl

/-- The validators of names accept the plain names. -/
theorem acceptedId_iff {name : String} : AcceptedId name ↔ rejectsName name = false := by
  rw [AcceptedId, validateWorkspaceId_eq_ok, rejectsName_eq, Bool.not_eq_false']

theorem acceptedSkill_iff {name : String} : AcceptedSkill name ↔ rejectsName name = false := by
  rw [AcceptedSkill, validateSkillName_eq_ok, rejectsName_eq, Bool.not_eq_false']

theorem secretsGuard_eq_ok {py : OpenBaoLib} {name : String} :
    secretsGuard py name = .ok () ↔ AcceptedId name := by
  rw [secretsGuard, refuseIf_eq_ok, rejectsForUrl_eq, Bool.not_eq_false', AcceptedId,
    validateWorkspaceId_eq_ok]

/-- **Every identifier that becomes a path stays below its root.** -/
theorem lexical_confinement (py : Interpreter) (lib : OpenBaoLib) (root : String) :
    (∀ name, AcceptedId name ∨ AcceptedSkill name →
      DirectlyBelow root (normpath (pathJoin root name))) ∧
    (∀ p, validateAllowedPath py p = .ok () →
      StrictlyBelow root (normpath (pathJoin root p)) ∧
        StrictlyBelow (purePath root).text (normpath ((purePath root).joinText p).text)) ∧
    (∀ name name',
      (AcceptedId name ∧ AcceptedId name') ∨ (AcceptedSkill name ∧ AcceptedSkill name') →
      name ≠ name' →
        normpath (pathJoin root name) ≠ normpath (pathJoin root name') ∧
        ¬ StrictlyBelow (normpath (pathJoin root name)) (normpath (pathJoin root name')) ∧
        ¬ StrictlyBelow (normpath (pathJoin root name')) (normpath (pathJoin root name))) ∧
    (∀ name, (name = "" ∨ name = "." ∨ name = ".." ∨ ∃ c ∈ name.toList, isPathControl c = true) →
      ¬ AcceptedId name ∧ ¬ AcceptedSkill name) ∧
    ∀ name, secretsGuard lib name = .ok () ↔ AcceptedId name := by
  have hid : ∀ {name}, AcceptedId name ↔ isPlainName name = true := validateWorkspaceId_eq_ok
  have hskill : ∀ {name}, AcceptedSkill name ↔ isPlainName name = true := validateSkillName_eq_ok
  refine ⟨?_, ?_, ?_, ?_, fun name => secretsGuard_eq_ok⟩
  · rintro name (h | h)
    · exact directlyBelow_plain root (hid.mp h)
    · exact directlyBelow_plain root (hskill.mp h)
  · exact fun p h => ⟨strictlyBelow_allowed root h, strictlyBelow_allowed_path root h⟩
  · rintro name name' (⟨h, h'⟩ | ⟨h, h'⟩) hne
    · exact plain_apart root (hid.mp h) (hid.mp h') hne
    · exact plain_apart root (hskill.mp h) (hskill.mp h') hne
  · intro name h
    rw [hid, hskill, not_isPlainName h]
    exact ⟨Bool.false_ne_true, Bool.false_ne_true⟩

/-- A workspace and a nested skill under a root. -/
theorem lexical_confinement_srv :
    DirectlyBelow "/srv/ws" (normpath (pathJoin "/srv/ws" "team-1")) ∧
      StrictlyBelow "/srv/ws" (normpath (pathJoin "/srv/ws" "tools/./fmt")) ∧
      normpath (pathJoin "/srv/ws" "team-1") ≠ normpath (pathJoin "/srv/ws" "team-2") := by
  obtain ⟨hdirect, hstrict, hapart, -⟩ :=
    lexical_confinement asciiLib.toInterpreter asciiLib "/srv/ws"
  have hfirst : AcceptedId "team-1" := by rfl
  have hsecond : AcceptedId "team-2" := by rfl
  refine ⟨hdirect _ (.inl hfirst), (hstrict "tools/./fmt" (by rfl)).1, ?_⟩
  exact (hapart _ _ (.inl ⟨hfirst, hsecond⟩) (by decide)).1

end ClawEngine.Skills
