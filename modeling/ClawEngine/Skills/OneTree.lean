import ClawEngine.Skills.Git

/-!
# A git whose commits have one tree

The git directory holds one file with what is recorded. Every commit has the same tree, within every
sparse set, so a command leaves another repository and the entries of the tree; where it cannot, it
exits with 128 and changes nothing.
-/

set_option autoImplicit false

namespace ClawEngine.Skills

open ClawEngine.Core ClawEngine.Core.Argv ClawEngine.Posix

/-- What a file holds: a repository, if it is the file of a git directory. -/
abbrev GitFile := Option Repository

deriving instance DecidableEq for Entry

/-- The entries of a working tree. -/
structure WorkTree where
  entries : List (Location × Entry GitFile)
  inTree : ∀ entry ∈ entries, InTree entry.1

namespace WorkTree

/-- The tree of every commit. -/
def tree (t : WorkTree) : Tree GitFile := fun rest => (t.entries.find? (·.1 = rest)).map (·.2)

/-- The entries that are missing are put. -/
def lay (t : WorkTree) (D : Location) (d : Disk GitFile) : Disk GitFile :=
  t.entries.foldl (fun d entry =>
    if (d.get? (D ++ entry.1)).isNone then d.put (D ++ entry.1) entry.2 else d) d

/-- Whether the entries are all there. -/
def stands (t : WorkTree) (D : Location) (m : Machine GitFile) : Bool :=
  t.entries.all fun entry => m.disk.get? (D ++ entry.1) = t.tree entry.1

end WorkTree

/-- The file of a git directory. -/
def configAt (D : Location) : Location := gitAt D ++ ["config"]

/-- What is recorded at a location. -/
def recordedAt (m : Machine GitFile) (D : Location) : Option Repository :=
  match m.disk.get? (gitAt D ++ ["SKILL.md"]), m.disk.get? (configAt D) with
  | none, some (.file (some r)) => some r
  | _, _ => none

/-- The process failed, and changed nothing. -/
def fatal (m : Machine GitFile) : GitProcess × Machine GitFile := (.exited 128 "" "", m)

/-- The repository becomes `r`, with its entries if something is checked out. -/
def becoming (t : WorkTree) (D : Location) (r : Repository) (m : Machine GitFile) :
    Machine GitFile :=
  let disk := if r.checkedOut.isSome then t.lay D m.disk else m.disk
  { m with disk := disk.put (configAt D) (.file (some r)) }

/-- Whether the repository is `r` now. -/
def isNow (t : WorkTree) (D : Location) (r : Repository) (m : Machine GitFile) : Bool :=
  recordedAt m D = some r && (r.checkedOut.isNone || t.stands D m)

/-- The command in a repository: the repository after it, and its output. -/
def afterCommand (remotes : Remotes) (args : List String) (r : Repository) :
    Option (Repository × String) :=
  if args.take 2 = ["sparse-checkout", "init"] then
    some ({ r with sparse := some (r.sparse.getD []) }, "")
  else if args.take 2 = ["sparse-checkout", "set"] then
    some ({ r with sparse := some (args.drop 2) }, "")
  else if args.take 2 = ["sparse-checkout", "disable"] then some ({ r with sparse := none }, "")
  else if args.head? = some "fetch" then
    (remotes r.origin (args.getLast?.getD "")).map fun commit =>
      ({ r with fetched := some commit }, "")
  else if args.head? = some "checkout" then
    r.fetched.map fun commit => ({ r with checkedOut := some commit }, "")
  else if args.head? = some "rev-parse" then
    (r.checkedOut.filter fun commit => strip (commit ++ "\n") = commit).map fun commit =>
      (r, commit ++ "\n")
  else none

/-- A command in the repository at `D`. -/
def commandAt (t : WorkTree) (remotes : Remotes) (args : List String) (D : Location)
    (m : Machine GitFile) : GitProcess × Machine GitFile :=
  match (recordedAt m D).bind (afterCommand remotes args) with
  | none => fatal m
  | some (r, stdout) =>
    if isNow t D r (becoming t D r m) then (.exited 0 stdout "", becoming t D r m) else fatal m

/-- The repository of a clone. -/
def clonedFrom (url : String) : Repository := ⟨url, none, none, none⟩

/-- The machine with a clone at `D`. -/
def withClone (url : String) (D : Location) (m : Machine GitFile) : Machine GitFile :=
  { m with disk := (m.disk.put (gitAt D) .dir).put (configAt D) (.file (some (clonedFrom url))) }

/-- A clone into an empty directory. -/
def cloneAt (url : String) (D : Location) (m : Machine GitFile) : GitProcess × Machine GitFile :=
  if m.disk.children D = [] ∧ recordedAt (withClone url D m) D = some (clonedFrom url) then
    (.exited 0 "" "", withClone url D m)
  else fatal m

/-- `git`. -/
def oneTreeGit (t : WorkTree) (remotes : Remotes) (args : List String) (cwd : String)
    (m : Machine GitFile) : GitProcess × Machine GitFile :=
  match lookup m true (PosixPath.ofString cwd) with
  | .found W =>
    if args.head? = some "clone" then
      match lookup { m with workdir := W } true (PosixPath.ofString (args.getLast?.getD "")) with
      | .found D => cloneAt (args.dropLast.getLast?.getD "") D m
      | _ => fatal m
    else commandAt t remotes args W m
  | _ => fatal m

/-- The program, for an interpreter. -/
def oneTreeProgram (py : Interpreter) (t : WorkTree) : GitProgram GitFile where
  host remotes :=
    { py
      osText _ _ := ""
      lower := id
      git argv cwd m := oneTreeGit t remotes argv.tail cwd m }
  repository := recordedAt
  tree _ _ := t.tree

/-! ## What it changes -/

section Changes

variable {t : WorkTree} {D q rest : Location} {d : Disk GitFile} {m m' : Machine GitFile}
  {r r' : Repository} {e : Entry GitFile}

theorem tree_mem (h : t.tree rest = some e) : (rest, e) ∈ t.entries := by
  obtain ⟨entry, hfind, rfl⟩ := Option.map_eq_some_iff.mp h
  have hrest := List.find?_some hfind
  rw [← of_decide_eq_true hrest]
  exact List.mem_of_find?_eq_some hfind

theorem tree_none (h : t.tree rest = none) : ∀ entry ∈ t.entries, entry.1 ≠ rest := by
  intro entry hentry heq
  have hnone := List.find?_eq_none.mp (Option.map_eq_none_iff.mp h) entry hentry
  exact hnone (decide_eq_true heq)

/-- Only places of the tree are laid. -/
theorem lay_get? (h : ∀ entry ∈ t.entries, q ≠ D ++ entry.1) : (t.lay D d).get? q = d.get? q := by
  unfold WorkTree.lay
  generalize t.entries = entries at h
  induction entries generalizing d with
  | nil => rfl
  | cons entry entries ih =>
    obtain ⟨hne, hrest⟩ := List.forall_mem_cons.mp h
    rw [List.foldl_cons, ih hrest]
    split
    · exact Disk.get?_put_of_ne hne _
    · rfl

theorem configAt_eq (D : Location) : configAt D = D ++ [".git", "config"] := by
  rw [configAt, gitAt, List.append_assoc]
  rfl

theorem ne_configAt (h : InTree rest) : D ++ rest ≠ configAt D := by
  rw [configAt_eq]
  intro heq
  rw [List.append_cancel_left heq] at h
  exact h.2 rfl

/-- Nothing changes outside the repository. -/
theorem becoming_outside : SameOutside D m (becoming t D r m) := by
  refine ⟨rfl, fun q hq => ?_⟩
  have hbelow : ∀ {rest : Location}, rest ≠ [] → q ≠ D ++ rest := by
    rintro rest hrest rfl
    exact hq ⟨List.prefix_append _ _, fun heq => hrest (List.append_right_eq_self.mp heq)⟩
  have hconfig : q ≠ configAt D := by
    rw [configAt_eq]
    exact hbelow (List.cons_ne_nil _ _)
  unfold becoming
  rw [Disk.get?_put_of_ne hconfig]
  split
  · exact lay_get? fun entry hentry => hbelow (t.inTree entry hentry).1
  · rfl

/-- Nor does an entry of the working tree that is not tracked. -/
theorem becoming_untracked (h : InTree rest)
    (hnone : r.checkedOut.isSome = true → t.tree rest = none) :
    (becoming t D r m).disk.get? (D ++ rest) = m.disk.get? (D ++ rest) := by
  unfold becoming
  rw [Disk.get?_put_of_ne (ne_configAt h)]
  split
  next hsome =>
    refine lay_get? fun entry hentry heq => ?_
    exact tree_none (hnone hsome) entry hentry (List.append_cancel_left heq).symm
  · rfl

variable {py : Interpreter}

theorem tracked_some (h : r.checkedOut.isSome = true) : (oneTreeProgram py t).tracked r = t.tree := by
  obtain ⟨commit, hcommit⟩ := Option.isSome_iff_exists.mp h
  rw [GitProgram.tracked, hcommit]
  rfl

theorem tracked_none (h : r.checkedOut = none) : (oneTreeProgram py t).tracked r = fun _ => none := by
  rw [GitProgram.tracked, h]

/-- What is tracked stays tracked where something stays checked out. -/
theorem tracked_stays (hkept : r.checkedOut.isSome = true → r'.checkedOut.isSome = true)
    (h : (oneTreeProgram py t).tracked r' rest = none) :
    (oneTreeProgram py t).tracked r rest = none := by
  cases hr : r.checkedOut with
  | none => rw [tracked_none hr]
  | some commit =>
    have hsome : r.checkedOut.isSome = true := by rw [hr]; rfl
    rw [tracked_some (hkept hsome)] at h
    rw [tracked_some hsome, h]

/-- **A repository that becomes another turned into it**, with its entries. -/
theorem becoming_turns (hkept : r.checkedOut.isSome = true → r'.checkedOut.isSome = true)
    (hnow : isNow t D r' (becoming t D r' m) = true) :
    (oneTreeProgram py t).Turns D r r' m (becoming t D r' m) := by
  obtain ⟨hrecorded, hstands⟩ := Bool.and_eq_true_iff.mp hnow
  have huntracked : ∀ rest, InTree rest → (oneTreeProgram py t).tracked r' rest = none →
      (becoming t D r' m).disk.get? (D ++ rest) = m.disk.get? (D ++ rest) := by
    intro rest hrest hnone
    refine becoming_untracked hrest fun hsome => ?_
    rwa [tracked_some hsome] at hnone
  refine ⟨of_decide_eq_true hrecorded, becoming_outside, fun rest e hrest he => ?_,
    fun rest hrest hnone hgone => ?_, fun rest hrest hnone _ => huntracked rest hrest hnone⟩
  · cases hr : r'.checkedOut with
    | none =>
      rw [tracked_none hr] at he
      cases he
    | some commit =>
      have hsome : r'.checkedOut.isSome = true := by rw [hr]; rfl
      rw [tracked_some hsome] at he
      rw [hr, Option.isNone_some, Bool.false_or] at hstands
      have hstand := List.all_eq_true.mp hstands _ (tree_mem he)
      rw [of_decide_eq_true hstand, he]
  · have hself := hgone [] (by rw [List.append_nil]; exact tracked_stays hkept hnone)
    rw [List.append_nil] at hself
    rw [huntracked rest hrest hnone, hself]

end Changes

/-! ## What it documents -/

section Documented

variable {t : WorkTree} {py : Interpreter} {remotes : Remotes} {args : List String} {cwd : String}
  {D : Location} {r : Repository} {m m' : Machine GitFile} {stdout : String}

theorem recordedAt_eq_some (h : recordedAt m D = some r) :
    m.disk.get? (gitAt D) = some .dir ∧ m.disk.get? (gitAt D ++ ["SKILL.md"]) = none := by
  unfold recordedAt at h
  split at h
  next hskill hconfig => exact ⟨(Disk.parent_dir hconfig).1, hskill⟩
  · cases h

theorem fatal_ne_exits {stderr : String} : fatal m ≠ (.exited 0 stdout stderr, m') := by
  intro h
  cases h

/-- Commands do not undo a checkout. -/
theorem afterCommand_kept {r' : Repository} (h : afterCommand remotes args r = some (r', stdout)) :
    r.checkedOut.isSome = true → r'.checkedOut.isSome = true := by
  intro hsome
  unfold afterCommand at h
  split_ifs at h
  · cases h; exact hsome
  · cases h; exact hsome
  · cases h; exact hsome
  · obtain ⟨commit, -, heq⟩ := Option.map_eq_some_iff.mp h
    cases heq
    exact hsome
  · obtain ⟨commit, -, heq⟩ := Option.map_eq_some_iff.mp h
    cases heq
    rfl
  · obtain ⟨commit, -, heq⟩ := Option.map_eq_some_iff.mp h
    cases heq
    exact hsome

theorem head?_ne_clone {command : String} (h : command ≠ "clone") :
    (command :: args).head? ≠ some "clone" := by
  rw [List.head?_cons]
  exact fun heq => h (Option.some.inj heq)

/-- A command other than `clone` that exits with 0 turned the repository. -/
theorem command_turns (hcommand : args.head? ≠ some "clone")
    (hat : (oneTreeProgram py t).At cwd D r m)
    (h : (oneTreeProgram py t).Exits remotes args cwd m stdout m') :
    ∃ r', afterCommand remotes args r = some (r', stdout) ∧
      (oneTreeProgram py t).Turns D r r' m m' := by
  obtain ⟨stderr, hgit⟩ := h
  have hrun : oneTreeGit t remotes args cwd m = (.exited 0 stdout stderr, m') := hgit
  have hrecorded : recordedAt m D = some r := hat.repository
  unfold oneTreeGit at hrun
  rw [hat.found] at hrun
  dsimp only at hrun
  rw [if_neg hcommand, commandAt, hrecorded, Option.bind_some] at hrun
  cases hafter : afterCommand remotes args r with
  | none =>
    rw [hafter] at hrun
    exact absurd hrun fatal_ne_exits
  | some after =>
    obtain ⟨r', out⟩ := after
    rw [hafter] at hrun
    dsimp only at hrun
    split at hrun
    next hnow =>
      cases hrun
      exact ⟨r', rfl, becoming_turns (afterCommand_kept hafter) hnow⟩
    · exact absurd hrun fatal_ne_exits

/-- A clone changes the git directory only. -/
theorem withClone_get? {q : Location} {url : String} (hgit : q ≠ gitAt D) (hconfig : q ≠ configAt D) :
    (withClone url D m).disk.get? q = m.disk.get? q := by
  rw [withClone, Disk.get?_put_of_ne hconfig, Disk.get?_put_of_ne hgit]

theorem withClone_moves {url : String} :
    Moves D (fun _ => none) (fun _ => none) m (withClone url D m) := by
  have hsame : ∀ rest, InTree rest →
      (withClone url D m).disk.get? (D ++ rest) = m.disk.get? (D ++ rest) := by
    intro rest hrest
    refine withClone_get? (fun heq => ?_) (ne_configAt hrest)
    rw [List.append_cancel_left heq] at hrest
    exact hrest.2 rfl
  refine ⟨⟨rfl, fun q hq => ?_⟩, fun rest e _ he => ?_, fun rest hrest _ hgone => ?_,
    fun rest hrest _ _ => hsame rest hrest⟩
  · have hbelow : ∀ {rest : Location}, rest ≠ [] → q ≠ D ++ rest := by
      rintro rest hrest rfl
      exact hq ⟨List.prefix_append _ _, fun heq => hrest (List.append_right_eq_self.mp heq)⟩
    refine withClone_get? (hbelow (List.cons_ne_nil _ _)) ?_
    rw [configAt_eq]
    exact hbelow (List.cons_ne_nil _ _)
  · cases he
  · have hself := hgone [] rfl
    rw [List.append_nil] at hself
    rw [hsame rest hrest, hself]

/-- It exits with 0, or with 128 and without a word. -/
theorem oneTreeGit_process (t : WorkTree) (remotes : Remotes) (args : List String) (cwd : String)
    (m : Machine GitFile) : (∃ stdout, (oneTreeGit t remotes args cwd m).1 = .exited 0 stdout "") ∨
      (oneTreeGit t remotes args cwd m).1 = .exited 128 "" "" := by
  unfold oneTreeGit commandAt cloneAt
  split
  · split_ifs
    · split
      · split_ifs
        · exact .inl ⟨_, rfl⟩
        · exact .inr rfl
      · exact .inr rfl
    · split
      · exact .inr rfl
      · split_ifs
        · exact .inl ⟨_, rfl⟩
        · exact .inr rfl
  · exact .inr rfl

theorem not_unknown {process : GitProcess} {e : GitSkillSourceError} {args : List String}
    (hprocess : (∃ stdout, process = .exited 0 stdout "") ∨ process = .exited 128 "" "")
    (h : gitResult args process = .error (.git e)) :
    isUnknownCommand ((oneTreeProgram py t).host remotes) e = false := by
  rcases hprocess with ⟨out, rfl⟩ | rfl
  · cases h
  · cases h
    rfl

end Documented

/-- The program keeps its word. -/
def oneTree (py : Interpreter) (t : WorkTree) : Git GitFile where
  toGitProgram := oneTreeProgram py t
  gitDir _ _ _ h := recordedAt_eq_some h
  reads m m' D h := by
    show recordedAt m' D = recordedAt m D
    rw [recordedAt, recordedAt, h _ (List.prefix_append _ _), h (configAt D) (List.prefix_append _ _)]
  clone remotes url dir cwd m m' stdout W D _ _ hW hD h := by
    obtain ⟨stderr, hgit⟩ := h
    have hrun : oneTreeGit t remotes
        ["clone", "--depth=1", "--filter=blob:none", "--no-checkout", url, dir] cwd m =
          (.exited 0 stdout stderr, m') := hgit
    have hclone : cloneAt url D m = (.exited 0 stdout stderr, m') := by
      rw [← hrun, oneTreeGit, hW]
      dsimp only
      rw [if_pos List.head?_cons, show lookup { m with workdir := W } true (PosixPath.ofString
        ((["clone", "--depth=1", "--filter=blob:none", "--no-checkout", url, dir].getLast?).getD
          "")) = .found D from hD]
      rfl
    unfold cloneAt at hclone
    split at hclone
    next hand =>
      cases hclone
      exact ⟨clonedFrom url, rfl, rfl, hand.2, withClone_moves⟩
    · exact absurd hclone fatal_ne_exits
  sparseInit remotes cwd D r m m' stdout hat h := by
    obtain ⟨r', hafter, hturns⟩ := command_turns (by decide) hat h
    cases hafter
    exact ⟨_, hturns⟩
  sparseSet remotes paths cwd D r m m' stdout _ hat h := by
    obtain ⟨r', hafter, hturns⟩ := command_turns (head?_ne_clone (by decide)) hat h
    cases hafter
    exact hturns
  sparseDisable remotes cwd D r m m' stdout hat h := by
    obtain ⟨r', hafter, hturns⟩ := command_turns (by decide) hat h
    cases hafter
    exact hturns
  sparseUnknown remotes cwd D r m m' process e _ h herror hunknown := by
    have hprocess := oneTreeGit_process t remotes ["sparse-checkout", "disable"] cwd m
    rw [show oneTreeGit t remotes ["sparse-checkout", "disable"] cwd m = (process, m') from h]
      at hprocess
    rw [not_unknown hprocess herror] at hunknown
    cases hunknown
  fetch remotes ref cwd D r m m' stdout _ hat h := by
    obtain ⟨r', hafter, hturns⟩ := command_turns (head?_ne_clone (by decide)) hat h
    obtain ⟨commit, hcommit, heq⟩ := Option.map_eq_some_iff.mp
      (show (remotes r.origin ref).map _ = some (r', stdout) from hafter)
    cases heq
    exact ⟨commit, hcommit, hturns⟩
  checkout remotes cwd D r m m' stdout hat h := by
    obtain ⟨r', hafter, hturns⟩ := command_turns (by decide) hat h
    obtain ⟨commit, hcommit, heq⟩ := Option.map_eq_some_iff.mp
      (show r.fetched.map _ = some (r', stdout) from hafter)
    cases heq
    exact ⟨commit, hcommit, hturns⟩
  revParse remotes cwd D r m m' stdout hat h := by
    obtain ⟨r', hafter, hturns⟩ := command_turns (by decide) hat h
    obtain ⟨commit, hcommit, heq⟩ := Option.map_eq_some_iff.mp
      (show (r.checkedOut.filter _).map _ = some (r', stdout) from hafter)
    cases heq
    obtain ⟨hchecked, hstrip⟩ := Option.filter_eq_some_iff.mp hcommit
    refine ⟨fun commit' hcommit' => ?_, hturns⟩
    obtain rfl : commit = commit' := Option.some.inj (hchecked.symm.trans hcommit')
    exact of_decide_eq_true hstrip

end ClawEngine.Skills
