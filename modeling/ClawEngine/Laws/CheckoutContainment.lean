import ClawEngine.Laws.CommandLine
import ClawEngine.Laws.Provisioning
import ClawEngine.Laws.RefreshStages
import ClawEngine.Posix.Carries
import ClawEngine.Posix.Realpath
import ClawEngine.Posix.Zone
import ClawEngine.Skills.Provisioner

/-!
# What a checkout contains

A repository may hold symbolic links, and a checkout makes them. `refresh` looks at none of them, so
a skill's directory, or a link in it, may lead out of the cache directory.

A path below a skill's directory **enters** a place when the directory itself, or a link on the way,
leads there; what it reaches lies plainly below the last place it enters. So every file reachable
from a skill's directory is under the cache directory exactly if no place that is entered has a file
outside in it. Copying makes new entries but no links, so it enters no new place; where also the
links that lead to nothing yet stay inside, what is copied comes from under the cache directory.
-/

set_option autoImplicit false

namespace ClawEngine.Skills

open ClawEngine.Core ClawEngine.Core.Act ClawEngine.Posix ClawEngine.Context ClawEngine.Identity
open ClawEngine.Orchestration

variable {C : Type}

/-! ## Entered places -/

/-- The system finds the path. -/
def Finds (m : Machine C) (p : PosixPath) (q : Location) : Prop := lookup m true p = .found q

/-- The names of the path lead somewhere, whether or not something is there. -/
def NamesLead (m : Machine C) (p : PosixPath) (q : Location) : Prop :=
  ∃ k, Resolves m.disk (if p.absolute then [] else m.workdir) p.names q k

theorem NamesLead.of_finds {m : Machine C} {p : PosixPath} {q : Location} (h : Finds m p q) :
    NamesLead m p q := by
  obtain ⟨k, -, hk⟩ := resolves_of_lookup h
  exact ⟨k, hk⟩

theorem NamesLead.unique {m : Machine C} {p : PosixPath} {q q' : Location} (h : NamesLead m p q)
    (h' : NamesLead m p q') : q = q' := by
  obtain ⟨k, hk⟩ := h
  obtain ⟨k', hk'⟩ := h'
  exact (hk.unique hk').1

/-- The paths at or below `p` enter the place: `p` leads there, or a link on the way does. -/
def Enters (d : Disk C) (To : PosixPath → Location → Prop) (p : PosixPath) (q : Location) : Prop :=
  To p q ∨ ∃ names name cur target, (∀ n ∈ names, isEntryName n = true) ∧
    isEntryName name = true ∧ To (p.descend names) cur ∧
    d.get? (cur ++ [name]) = some (.link target) ∧ To (p.descend (names ++ [name])) q

/-- The last name of a path is that of a link, or of an entry in the place the path above leads
to. -/
def StepsOn (d : Disk C) (To : PosixPath → Location → Prop) : Prop :=
  ∀ (p : PosixPath) (name : String) (q : Location), p.names ≠ [] → isEntryName name = true →
    To (p.child name) q → ∃ cur, To p cur ∧
      ((∃ target, d.get? (cur ++ [name]) = some (.link target)) ∨ q = cur ++ [name])

theorem NamesLead.stepsOn (m : Machine C) : StepsOn m.disk (NamesLead m) := by
  intro p name q _ hname h
  obtain ⟨k, hk⟩ := h
  obtain ⟨cur, k₁, k₂, hcur, hlast, -⟩ := Resolves.split hk
  refine ⟨cur, ⟨k₁, hcur⟩, ?_⟩
  cases hlast with
  | dot hdot => exact absurd hdot (isEntryName_ne_dot hname)
  | up _ hup => exact absurd hup (isEntryName_ne_dotdot hname)
  | step _ _ _ hrest =>
    cases hrest
    exact .inr rfl
  | link _ _ hlink => exact .inl ⟨_, hlink⟩

theorem Finds.stepsOn (m : Machine C) : StepsOn m.disk (Finds m) := by
  intro p name q hp hname h
  have herror : ∀ e, lookup m true (p.child name) ≠ .error e := by
    intro e he
    rw [Finds, he] at h
    cases h
  obtain ⟨cur, hcur⟩ := lookup_head (.inr hp) herror
  obtain ⟨cur', hcur', hcases⟩ := NamesLead.stepsOn m p name q hp hname (.of_finds h)
  obtain rfl := (NamesLead.of_finds hcur).unique hcur'
  exact ⟨cur, hcur, hcases⟩

/-- **What a path reaches lies below a place that is entered.** -/
theorem exists_enters {d : Disk C} {To : PosixPath → Location → Prop} (hsteps : StepsOn d To)
    {p : PosixPath} (hp : p.names ≠ []) {names : List String}
    (hnames : ∀ name ∈ names, isEntryName name = true) {q : Location}
    (h : To (p.descend names) q) : ∃ place rest, Enters d To p place ∧ q = place ++ rest := by
  induction names using List.reverseRecOn generalizing q with
  | nil =>
    rw [descend_nil] at h
    exact ⟨q, [], .inl h, (List.append_nil q).symm⟩
  | append_singleton names name ih =>
    have hinit : ∀ n ∈ names, isEntryName n = true := fun n hn =>
      hnames n (List.mem_append_left _ hn)
    have hname := hnames name (List.mem_append_right _ (List.mem_singleton_self _))
    have hne : (p.descend names).names ≠ [] := fun hnil => hp (List.append_eq_nil_iff.mp hnil).1
    have h' := h
    rw [← descend_child] at h'
    obtain ⟨cur, hcur, ⟨target, hlink⟩ | rfl⟩ := hsteps _ _ _ hne hname h'
    · exact ⟨q, [], .inr ⟨names, name, cur, target, hinit, hname, hcur, hlink, h⟩,
        (List.append_nil q).symm⟩
    · obtain ⟨place, rest, hplace, rfl⟩ := ih hinit hcur
      exact ⟨place, rest ++ [name], hplace, List.append_assoc ..⟩

/-- Every place that is entered has only files in it that are `In`. -/
def Stays (d : Disk C) (To : PosixPath → Location → Prop) (In : Location → Prop)
    (p : PosixPath) : Prop :=
  ∀ place, Enters d To p place → ∀ rest content,
    d.get? (place ++ rest) = some (.file content) → In (place ++ rest)

/-- The real path of every file reachable from `p` is `In`. -/
def Contained (m : Machine C) (In : Location → Prop) (p : PosixPath) : Prop :=
  ∀ names : List String, (∀ name ∈ names, isEntryName name = true) → ∀ real,
    isfile m (p.descend names) = true → realpath m (p.descend names) = .ok real → In real

theorem entryNames_of_located {d : Disk C} {q rest : Location} {e : Entry C}
    (h : d.get? (q ++ rest) = some e) : ∀ name ∈ rest, isEntryName name = true := by
  induction rest using List.reverseRecOn generalizing e with
  | nil => exact nofun
  | append_singleton rest name ih =>
    rw [← List.append_assoc] at h
    obtain ⟨hdir, hname⟩ := Disk.parent_dir h
    intro n hn
    rcases List.mem_append.mp hn with hn | hn
    · exact ih hdir n hn
    · rwa [List.mem_singleton.mp hn]

/-- A file in a place that is found under a path is found under the path that goes on to it. -/
theorem finds_below {m : Machine C} {p : PosixPath} {place rest : Location} {content : C}
    (h : Finds m p place) (hfile : m.disk.get? (place ++ rest) = some (.file content)) :
    Finds m (p.descend rest) (place ++ rest) := by
  by_cases hrest : rest = []
  · subst hrest
    rw [PosixPath.descend, List.append_nil, List.append_nil]
    exact h
  · exact lookup_located_below ⟨Disk.ancestor_dir hrest hfile, h⟩ hrest hfile rfl

/-- **Containment.** Every file reachable from a path is `In` exactly if every file in a place that
is entered is. -/
theorem contained_iff {m : Machine C} {In : Location → Prop} {dest : PosixPath} {name : String}
    (hname : isEntryName name = true) :
    Contained m In (dest.child name) ↔ Stays m.disk (Finds m) In (dest.child name) := by
  have hne : (dest.child name).names ≠ [] := List.concat_ne_nil _ _
  constructor
  · intro h place hplace rest content hfile
    have hreach : ∃ names, (∀ n ∈ names, isEntryName n = true) ∧
        Finds m ((dest.child name).descend names) place := by
      rcases hplace with hplace | ⟨names, n, cur, target, hnames, hn, -, -, hplace⟩
      · refine ⟨[], nofun, ?_⟩
        rw [descend_nil]
        exact hplace
      · refine ⟨names ++ [n], fun x hx => ?_, hplace⟩
        rcases List.mem_append.mp hx with hx | hx
        · exact hnames x hx
        · rwa [List.mem_singleton.mp hx]
    obtain ⟨names, hnames, hfinds⟩ := hreach
    have hfound := finds_below hfinds hfile
    have hdescend : ((dest.child name).descend names).descend rest =
        (dest.child name).descend (names ++ rest) := by
      simp only [PosixPath.descend, List.append_assoc]
    rw [hdescend] at hfound
    refine h (names ++ rest) (fun n hn => ?_) _ (isfile_iff.mpr ⟨_, hfound, ?_⟩)
      (realpath_of_lookup hfound)
    · rcases List.mem_append.mp hn with hn | hn
      · exact hnames n hn
      · exact entryNames_of_located hfile n hn
    · rw [Disk.isDirAt, hfile]
  · intro h names hnames real hfile hreal
    obtain ⟨q, hq, hdir⟩ := isfile_iff.mp hfile
    rw [realpath_of_lookup hq, Except.ok.injEq] at hreal
    subst hreal
    obtain ⟨place, rest, hplace, rfl⟩ := exists_enters (Finds.stepsOn m) hne hnames hq
    have hentry : ∃ e, m.disk.get? (place ++ rest) = some e ∧ e.isLink = false := by
      rcases List.eq_nil_or_concat names with rfl | ⟨names, last, rfl⟩
      · rw [descend_nil] at hq
        exact lookup_entry hname hq
      · rw [List.concat_eq_append, ← descend_child] at hq
        refine lookup_entry (hnames last ?_) hq
        rw [List.concat_eq_append]
        exact List.mem_append_right _ (List.mem_singleton_self _)
    obtain ⟨e, he, hlink⟩ := hentry
    cases e with
    | dir => rw [Disk.isDirAt_iff.mpr he] at hdir; cases hdir
    | file content => exact h place hplace rest content he
    | link target => cases hlink

/-! ## What provisioning copies -/

/-- The files of a machine hold what they held in `m`, or a good content. -/
structure FilesFrom (m : Machine C) (G : C → Prop) (m' : Machine C) : Prop where
  faults : m'.faults = m.faults
  files : ∀ {q content}, m'.disk.get? q = some (.file content) →
    m.disk.get? q = some (.file content) ∨ G content

/-- And the links are those of `m`. -/
structure LinksFrom (m : Machine C) (G : C → Prop) (m' : Machine C) : Prop
    extends FilesFrom m G m' where
  workdir : m'.workdir = m.workdir
  links : ∀ q target, m'.disk.get? q = some (.link target) ↔ m.disk.get? q = some (.link target)

/-- The paths at or below the directories of the skills in `root`. -/
def SkillPaths (root : PosixPath) : Set PosixPath :=
  {p | ∃ name, isPlainName name = true ∧ p ∈ Through root name}

section Files

variable {m m' : Machine C} {G : C → Prop}

theorem FilesFrom.refl (m : Machine C) (G : C → Prop) : FilesFrom m G m := ⟨rfl, .inl⟩

theorem LinksFrom.refl (m : Machine C) (G : C → Prop) : LinksFrom m G m :=
  ⟨.refl m G, rfl, fun _ _ => Iff.rfl⟩

theorem FilesFrom.put_dir (h : FilesFrom m G m') (q : Location) :
    FilesFrom m G { m' with disk := m'.disk.put q .dir } := by
  refine ⟨h.faults, fun {p content} hp => ?_⟩
  by_cases hcan : m'.disk.CanPut q
  · rw [Disk.get?_put hcan] at hp
    split at hp
    · cases hp
    · exact h.files hp
  · rw [Disk.put, dif_neg hcan] at hp
    exact h.files hp

theorem FilesFrom.put_file (h : FilesFrom m G m') (q : Location) {content : C}
    (hcontent : G content) : FilesFrom m G { m' with disk := m'.disk.put q (.file content) } := by
  refine ⟨h.faults, fun {p content'} hp => ?_⟩
  by_cases hcan : m'.disk.CanPut q
  · rw [Disk.get?_put hcan] at hp
    split at hp
    · cases hp
      exact .inr hcontent
    · exact h.files hp
  · rw [Disk.put, dif_neg hcan] at hp
    exact h.files hp

theorem FilesFrom.cuts (m : Machine C) (G : C → Prop) (T : Location) : Cuts (FilesFrom m G) T where
  tick _ _ h := ⟨h.faults, h.files⟩
  prune _ _ h _ := ⟨h.faults, fun hp => h.files (Disk.get?_of_prune hp)⟩

/-- An entry that is no link, put where none is, leaves the links. -/
theorem LinksFrom.put_links (h : LinksFrom m G m') {q : Location} {e : Entry C}
    (he : e.isLink = false) (hq : ∀ target, m'.disk.get? q ≠ some (.link target)) (p : Location)
    (target : String) : (m'.disk.put q e).get? p = some (.link target) ↔
      m.disk.get? p = some (.link target) := by
  rw [← h.links p target]
  by_cases hcan : m'.disk.CanPut q
  · rw [Disk.get?_put hcan]
    split
    · next heq =>
      subst heq
      refine ⟨fun heq => ?_, fun hlink => absurd hlink (hq target)⟩
      cases heq
      cases he
    · exact Iff.rfl
  · rw [Disk.put, dif_neg hcan]

/-- What the names of a path lead to depends on the links alone. -/
theorem LinksFrom.namesLead (h : LinksFrom m G m') {p : PosixPath} {q : Location}
    (hlead : NamesLead m' p q) : NamesLead m p q := by
  obtain ⟨k, hk⟩ := hlead
  rw [h.workdir] at hk
  exact ⟨k, hk.congr h.links⟩

theorem skillPaths_child {root p : PosixPath} {name : String} (hp : p ∈ SkillPaths root)
    (hname : isEntryName name = true) : p.child name ∈ SkillPaths root := by
  obtain ⟨n, hn, hp⟩ := hp
  exact ⟨n, hn, through_snoc hp hname⟩

/-- **The rules of copying skills**: where the skills' directories enter only places whose files are
`In`, what is read of them is good. -/
theorem LinksFrom.carries [Inhabited C] {In : Location → Prop} {root : PosixPath}
    (hstays : ∀ name, isPlainName name = true →
      Stays m.disk (NamesLead m) In (root.child name))
    (hinside : ∀ q content, In q → m.disk.get? q = some (.file content) → G content)
    (hdropped : G default) (hleft : ∀ n fault, m.faults n = some fault → G fault.left) :
    Carries (LinksFrom m G) (SkillPaths root)
      (fun q => ∀ target, m.disk.get? q ≠ some (.link target))
      (fun q => ∀ content, m.disk.get? q = some (.file content) → G content) G where
  tick _ _ h := ⟨⟨h.faults, h.files⟩, h.workdir, h.links⟩
  dir m' p q h hq := by
    have hnone := lookup_missing hq
    refine ⟨h.put_dir q, h.workdir, h.put_links rfl fun target ht => ?_⟩
    rw [hnone] at ht
    cases ht
  lands m' p name q h hname hopens := by
    intro target ht
    rw [← h.links] at ht
    rcases hopens with hmissing | ⟨hfound, -⟩
    · rw [lookup_missing hmissing] at ht
      cases ht
    · exact lookup_plain hname hfound target ht
  file m' q content h hq hcontent := by
    refine ⟨h.put_file q hcontent, h.workdir, h.put_links rfl fun target ht => ?_⟩
    exact hq target ((h.links q target).mp ht)
  child p name := skillPaths_child
  opens := by
    rintro m' p q h ⟨name, hname, names, hnames, rfl⟩ hfound content hfile
    have hlead : NamesLead m ((root.child name).descend names) q := by
      refine h.namesLead (NamesLead.of_finds ?_)
      have hdescend : (root.child name).descend names = root.descend (name :: names) := by
        simp only [PosixPath.child, PosixPath.descend, List.append_assoc, List.singleton_append]
      rw [hdescend]
      exact hfound
    obtain ⟨place, rest, hplace, rfl⟩ :=
      exists_enters (NamesLead.stepsOn m) (List.concat_ne_nil _ _) hnames hlead
    exact hinside _ content (hstays name hname place hplace rest content hfile) hfile
  reads m' q content h hq hfile := (h.files hfile).elim (hq content) id
  dropped := hdropped
  left m' n fault h hfault := hleft n fault (h.faults ▸ hfault)

end Files

section Provisioning

variable [Inhabited C] {m : Machine C} {G : C → Prop} {S : Set PosixPath}
  {I L : Location → Prop} {P : SkillProvisioner C} {ws : ResolvedWorkspace} {user : User}

/-- Writing one good file. -/
theorem FilesFrom.carries (hdropped : G default)
    (hleft : ∀ n fault, m.faults n = some fault → G fault.left) :
    Carries (FilesFrom m G) ∅ (fun _ => True) (fun _ => False) G where
  tick _ _ h := ⟨h.faults, h.files⟩
  dir _ _ q h _ := h.put_dir q
  lands _ _ _ _ _ _ _ := trivial
  file _ q _ h _ hcontent := h.put_file q hcontent
  child _ _ h _ := h.elim
  opens _ _ _ _ h _ := h.elim
  reads _ _ _ _ h _ := h.elim
  dropped := hdropped
  left _ n fault h hfault := hleft n fault (h.faults ▸ hfault)

theorem manifestFile_entry : isEntryName manifestFile = true := by decide

/-- **What provisioning leaves on the disk was there, or is good.** -/
theorem provision_filesFrom (h : Carries (LinksFrom m G) S I L G)
    (hsource : ∀ m' name src, P.source.skillDir m' name = .ok src → src ∈ S)
    (hdropped : G default) (hleft : ∀ n fault, m.faults n = some fault → G fault.left)
    (hmanifest : ∀ managed, G (P.json.dump (manifestOf managed))) :
    FilesFrom m G (P.provision ws user m).2 := by
  have hfiles : Carries (FilesFrom m G) ∅ (fun _ => True) (fun _ => False) G :=
    FilesFrom.carries hdropped hleft
  have hweaker : ∀ m', LinksFrom m G m' → FilesFrom m G m' := fun _ h => h.toFilesFrom
  unfold SkillProvisioner.provision
  refine Keeps.bind_ends ((h.makes.makedirs _ (Set.mem_univ _)).mapError _) hweaker ?_ m (.refl m G)
  intro _
  refine Keeps.bind_ends (readManifest_keeps h.tick _ _) hweaker fun prev => ?_
  refine Keeps.bind_ends (provisionSkills_keeps h hsource _ _ _) hweaker fun result m' hm' => ?_
  refine Keeps.bind (I := FilesFrom m G) ((keeps_readE _).mapError _) (fun real => ?_) m'
    (hweaker m' hm')
  refine (revokeSkills_keeps (FilesFrom.cuts m G) _ _ _ _).bind fun revoked => ?_
  exact ((hfiles.writeFile manifestFile_entry (hmanifest _)).mapError _).bind fun _ => keeps_pure _

end Provisioning

/-! ## Containment -/

/-- The location is under the real path of the cache directory. -/
def InCache (m : Machine C) (source : GitSkillSource) (q : Location) : Prop :=
  ∃ real, realpath m (PosixPath.ofString source.cacheDir.text) = .ok real ∧ real <+: q

/-- What provisioning may write: the content of a file in the cache directory, what a fault leaves
of a write or opening leaves of a file, and a manifest. -/
def FromCache [Inhabited C] (m : Machine C) (source : GitSkillSource) (json : JsonFile C)
    (content : C) : Prop :=
  (∃ q, InCache m source q ∧ m.disk.get? q = some (.file content)) ∨
    (∃ n fault, m.faults n = some fault ∧ fault.left = content) ∨ content = default ∨
      ∃ managed, content = json.dump (manifestOf managed)

/-- **When skill content stays in the cache directory.** After a refresh, every file reachable from
a skill's directory is under the cache directory exactly if every file is in each place that the
directory, or a link on the way, leads to. If these places count also where nothing is there yet,
provisioning writes nothing that is not from under the cache directory. -/
theorem content_contained [Inhabited C] (host : GitHost C) (ref : Option String)
    (s s' : Refreshing C) (r : RefreshResult) (hrefresh : refresh host ref s = (.ok r, s')) :
    ((∀ name p, s'.source.reader.skillDir s'.machine name = .ok p →
        Contained s'.machine (InCache s'.machine s'.source) p) ↔
      ∀ name, s'.source.reader.hasSkill s'.machine name = true →
        Stays s'.machine.disk (Finds s'.machine) (InCache s'.machine s'.source)
          (skillPath s'.source name)) ∧
    ((∀ name, isPlainName name = true →
        Stays s'.machine.disk (NamesLead s'.machine) (InCache s'.machine s'.source)
          (skillPath s'.source name)) →
      ∀ (P : SkillProvisioner C) (ws : ResolvedWorkspace) (user : User),
        P.source = s'.source.reader →
        FilesFrom s'.machine (FromCache s'.machine s'.source P.json)
          (P.provision ws user s'.machine).2) := by
  rw [refresh_source hrefresh]
  generalize (s.withRef ref).source = source
  simp only [skillPath_bound, bound_skillDir]
  constructor
  · constructor
    · intro h name hname
      have hentry := isEntryName_of_isPlainName (bound_hasSkill.mp hname).1
      exact (contained_iff hentry).mp (h name _ ⟨hname, rfl⟩)
    · rintro h name p ⟨hname, rfl⟩
      have hentry := isEntryName_of_isPlainName (bound_hasSkill.mp hname).1
      exact (contained_iff hentry).mpr (h name hname)
  · intro hstays P ws user hsource
    refine provision_filesFrom (S := SkillPaths (PosixPath.ofString (skillRoot source).text))
      (LinksFrom.carries hstays (fun q content hq hfile => .inl ⟨q, hq, hfile⟩)
        (.inr (.inr (.inl rfl))) fun n fault hfault => .inr (.inl ⟨n, fault, hfault, rfl⟩))
      ?_ (.inr (.inr (.inl rfl))) (fun n fault hfault => .inr (.inl ⟨n, fault, hfault, rfl⟩))
      fun managed => .inr (.inr (.inr ⟨managed, rfl⟩))
    intro m' name src hsrc
    rw [hsource, bound_skillDir] at hsrc
    obtain ⟨hname, rfl⟩ := hsrc
    exact ⟨name, (bound_hasSkill.mp hname).1, [], List.forall_mem_nil _, rfl⟩

/-- A `git` whose checkout puts the entries of a tree into the working directory. -/
def treeGit (tree : List (Location × Entry (List Char))) : GitHost (List Char) where
  py := plainInterpreter
  osText _ _ := ""
  lower := id
  git argv cwd m :=
    let dir := (PosixPath.ofString cwd).names
    let (stdout, disk) := match argv with
      | "git" :: "clone" :: args =>
        ("", m.disk.put ((PosixPath.ofString (args.getLast?.getD "")).names ++ [".git"]) .dir)
      | "git" :: "checkout" :: _ =>
        ("", tree.foldl (fun d (q, entry) => d.put (dir ++ q) entry) m.disk)
      | "git" :: "rev-parse" :: _ => ("5e1c309dae7f45e0f39b1bf3ac3cd9db12e7d689\n", m.disk)
      | _ => ("", m.disk)
    (.exited 0 stdout "", { m with disk })

/-- A machine with a workspace and a password file. -/
def passwordMachine (password : Entry (List Char)) : Machine (List Char) where
  disk := [(["etc"], .dir), (["etc", "passwd"], password), (["ws"], .dir)].foldl
    (fun d (q, entry) => d.put q entry) Disk.empty

/-- A skill `s` with a link in it. -/
def linkedTree (target : String) : List (Location × Entry (List Char)) :=
  [(["s"], .dir), (["s", "SKILL.md"], .file "# s".toList), (["s", "notes"], .link target)]

/-- The refresh of a source of that repository. -/
def refreshedTree (target : String) (password : Entry (List Char)) :
    Except RefreshError RefreshResult × Refreshing (List Char) :=
  refresh (treeGit (linkedTree target)) none
    { source := sourceFor "url" "main" none, machine := passwordMachine password }

theorem refreshedTree_returns {target : String} {password : Entry (List Char)}
    (h : (refreshedTree target password).1.isOk = true) :
    ∃ r, refresh (treeGit (linkedTree target)) none
      { source := sourceFor "url" "main" none, machine := passwordMachine password } =
        (.ok r, (refreshedTree target password).2) := by
  unfold refreshedTree at h ⊢
  generalize refresh (treeGit (linkedTree target)) none _ = out at h ⊢
  obtain ⟨answer, s⟩ := out
  cases answer with
  | error e => cases h
  | ok r => exact ⟨r, rfl⟩

/-- The skill `s`, provisioned from a refreshed source. -/
def provisioned (s : Refreshing (List Char)) : Machine (List Char) :=
  ({ openProvisioner with source := s.source.reader }.provision
    { skilledWorkspace with allowedSkills := ["s"] } skilledUser s.machine).2

/-- The content of the file at a location. -/
def contentAt (m : Machine C) (q : Location) : Option C :=
  match m.disk.get? q with
  | some (.file content) => some content
  | _ => none

/-- Every file on the disk is in the cache directory. -/
def allCached (m : Machine (List Char)) : Bool :=
  m.disk.entries.keys.all fun q =>
    match m.disk.get? q with
    | some (.file _) => ["cache"].isPrefixOf q
    | _ => true

theorem allCached_prefix {m : Machine (List Char)} (h : allCached m = true) {q : Location}
    {content : List Char} (hfile : m.disk.get? q = some (.file content)) : ["cache"] <+: q := by
  have hne : q ≠ [] := by
    rintro rfl
    cases hfile
  have hkey : q ∈ m.disk.entries.keys := by
    rw [Disk.get?_of_ne_nil _ hne] at hfile
    exact Dict.mem_keys.mpr (Option.isSome_iff_exists.mpr ⟨_, hfile⟩)
  have hq := List.all_eq_true.mp h q hkey
  rw [hfile] at hq
  exact List.isPrefixOf_iff_prefix.mp hq

/-- **A link that stays in the skill's directory.** The skill's files are in the cache directory, and
its provisioning writes nothing else. -/
theorem content_contained_plain :
    let s := (refreshedTree "SKILL.md" .dir).2
    Contained s.machine (InCache s.machine s.source) (PosixPath.ofString "/cache/s") ∧
      FilesFrom s.machine (FromCache s.machine s.source textFile) (provisioned s) := by
  intro s
  have hcached : allCached s.machine = true := by decide +kernel
  have hreal : realpath s.machine (PosixPath.ofString s.source.cacheDir.text) = .ok ["cache"] :=
    eq_ok_of_toOption (by decide +kernel)
  have hskill : s.source.reader.skillDir s.machine "s" = .ok (PosixPath.ofString "/cache/s") :=
    eq_ok_of_toOption (by decide +kernel)
  have hok : (refreshedTree "SKILL.md" .dir).1.isOk = true := by decide +kernel
  obtain ⟨r, hrefresh⟩ := refreshedTree_returns hok
  obtain ⟨hcontained, hcopied⟩ := content_contained (treeGit (linkedTree "SKILL.md")) none _ s r
    hrefresh
  clear_value s
  have hin : ∀ {q : Location} {content : List Char},
      s.machine.disk.get? q = some (.file content) → InCache s.machine s.source q :=
    fun hfile => ⟨["cache"], hreal, allCached_prefix hcached hfile⟩
  refine ⟨hcontained.mpr (fun _ _ place _ rest content hfile => hin hfile) "s" _ hskill, ?_⟩
  exact hcopied (fun _ _ place _ rest content hfile => hin hfile)
    { openProvisioner with source := s.source.reader }
    { skilledWorkspace with allowedSkills := ["s"] } skilledUser rfl

/-- **A link that leads out.** The refresh returns, the skill has a file whose real path is
`/etc/passwd`, and provisioning copies that file. -/
theorem checkout_leads_out :
    let password : Entry (List Char) := .file "secret".toList
    let s := (refreshedTree "/etc/passwd" password).2
    (refreshedTree "/etc/passwd" password).1.isOk = true ∧
      s.source.reader.skillDir s.machine "s" = .ok (PosixPath.ofString "/cache/s") ∧
      isfile s.machine (PosixPath.ofString "/cache/s/notes") = true ∧
      realpath s.machine (PosixPath.ofString "/cache/s/notes") = .ok ["etc", "passwd"] ∧
      realpath s.machine (PosixPath.ofString s.source.cacheDir.text) = .ok ["cache"] ∧
      ¬ Contained s.machine (InCache s.machine s.source) (PosixPath.ofString "/cache/s") ∧
      contentAt (provisioned s) ["ws", ".agents", "skills", "s", "notes"] =
        some "secret".toList := by
  intro password s
  have hfile : isfile s.machine (PosixPath.ofString "/cache/s/notes") = true := by decide +kernel
  have hreal : realpath s.machine (PosixPath.ofString "/cache/s/notes") =
      .ok ["etc", "passwd"] := eq_ok_of_toOption (by decide +kernel)
  have hcache : realpath s.machine (PosixPath.ofString s.source.cacheDir.text) =
      .ok ["cache"] := eq_ok_of_toOption (by decide +kernel)
  refine ⟨by decide +kernel, eq_ok_of_toOption (by decide +kernel), hfile, hreal, hcache, ?_,
    by decide +kernel⟩
  clear_value s
  intro hcontained
  obtain ⟨real, hin, hpre⟩ := hcontained ["notes"] (by decide) _ hfile hreal
  rw [hcache] at hin
  cases hin
  exact absurd hpre (by decide)

end ClawEngine.Skills
