import ClawEngine.Posix.Disk

/-!
# Looking a path up

The system's walk along the names of a path: through directories, up at `..`, and through the
targets of links, at most `maxLinks` of them. It finds an entry, or finds that only the last name is
missing, in a directory that is there, or fails. Whether a link in last place is followed depends
on the operation that asks.
-/

set_option autoImplicit false

namespace ClawEngine.Posix

open ClawEngine.Core

variable {C : Type}

/-- The classes of `OSError` that are told apart, and the rest by its text. -/
inductive OsError
  | fileNotFound | fileExists | notADirectory | isADirectory | tooManyLinks
  | other (text : String)
  deriving DecidableEq, Repr

/-- What a walk ends with. -/
inductive Lookup
  | found (p : Location)
  | missing (p : Location)
  | error (e : OsError)
  deriving DecidableEq, Repr

/-- Where the target of a link in `cur` starts. -/
def startOf (cur : Location) (target : PosixPath) : Location :=
  if target.absolute then [] else cur

/-- The walk, with what to do at a link. -/
def walkWith (d : Disk C) (follow : Bool) (onLink : Location → List String → Lookup) :
    Location → List String → Lookup
  | cur, [] => .found cur
  | cur, name :: rest =>
    if name = "." then walkWith d follow onLink cur rest
    else if name = ".." then walkWith d follow onLink cur.dropLast rest
    else
      match d.get? (cur ++ [name]) with
      | none => if rest = [] then .missing (cur ++ [name]) else .error .fileNotFound
      | some .dir => walkWith d follow onLink (cur ++ [name]) rest
      | some (.file _) => if rest = [] then .found (cur ++ [name]) else .error .notADirectory
      | some (.link target) =>
        if rest = [] ∧ follow = false then .found (cur ++ [name])
        else
          let target := PosixPath.ofString target
          onLink (startOf cur target) (target.names ++ rest)

/-- The walk through at most `budget` links. -/
def walk (d : Disk C) (follow : Bool) : (budget : Nat) → Location → List String → Lookup
  | 0 => walkWith d follow fun _ _ => .error .tooManyLinks
  | budget + 1 => walkWith d follow (walk d follow budget)

/-- How many links one walk follows. -/
def maxLinks : Nat := 40

/-- A fault of an operation that reads or changes a file, such as a full disk: the text of its
error, and what is left of the content it was writing. -/
structure Fault (C : Type) where
  text : String
  left : C

def Fault.error (fault : Fault C) : OsError := .other fault.text

/-- A process over a disk: its working directory, and the faults its operations will meet, by the
number of the operation. -/
structure Machine (C : Type) where
  disk : Disk C
  workdir : Location := []
  faults : Nat → Option (Fault C) := fun _ => none
  tick : Nat := 0

/-- The system's answer to a path. The empty path names nothing. -/
def lookup (m : Machine C) (follow : Bool) (p : PosixPath) : Lookup :=
  if p.absolute then walk m.disk follow maxLinks [] p.names
  else if p.names = [] then .error .fileNotFound
  else walk m.disk follow maxLinks m.workdir p.names

/-! ## Walks in parts -/

section Walks

variable {d : Disk C} {follow : Bool}

/-- A walk whose first part ends in a directory goes on from there. -/
theorem walkWith_append {onLink onLink' : Location → List String → Lookup}
    {cur p : Location} {xs ys : List String} (hys : ys ≠ [])
    (hp : d.get? p = some .dir) (h : walkWith d true onLink cur xs = .found p)
    (hlink : ∀ start todo, onLink start todo = .found p →
      ∃ b, onLink' start (todo ++ ys) = walk d follow b p ys)
    (b : Nat) (hb : ∀ start todo, walkWith d follow onLink' start todo = walk d follow b start todo) :
    ∃ b', walkWith d follow onLink' cur (xs ++ ys) = walk d follow b' p ys := by
  induction xs generalizing cur with
  | nil =>
    cases h
    exact ⟨b, hb p ys⟩
  | cons name rest ih =>
    simp only [List.cons_append, walkWith] at h ⊢
    have hrest : rest ++ ys ≠ [] := fun hnil => hys (List.append_eq_nil_iff.mp hnil).2
    split
    next hdot =>
      rw [if_pos hdot] at h
      exact ih h
    next hdot =>
    rw [if_neg hdot] at h
    split
    next hup =>
      rw [if_pos hup] at h
      exact ih h
    next hup =>
    rw [if_neg hup] at h
    split
    next hnone =>
      rw [hnone] at h
      dsimp only at h
      split at h <;> cases h
    next hdir =>
      rw [hdir] at h
      exact ih h
    next hfile =>
      rw [hfile] at h
      dsimp only at h
      split at h
      · cases h
        rw [hfile] at hp
        cases hp
      · cases h
    next target hlinked =>
      rw [hlinked] at h
      dsimp only at h
      rw [if_neg (fun hand => Bool.noConfusion hand.2)] at h
      rw [if_neg (fun hand => hrest hand.1)]
      obtain ⟨b', hb'⟩ := hlink _ _ h
      rw [List.append_assoc] at hb'
      exact ⟨b', hb'⟩

/-- **A walk in two parts**: where the first part ends in a directory, the second starts there. -/
theorem walk_append {b : Nat} {cur p : Location} {xs ys : List String} (hys : ys ≠ [])
    (hp : d.get? p = some .dir) (h : walk d true b cur xs = .found p) :
    ∃ b', walk d follow b cur (xs ++ ys) = walk d follow b' p ys := by
  induction b generalizing cur xs with
  | zero =>
    exact walkWith_append hys hp h (fun _ _ hlink => by cases hlink) 0 fun _ _ => rfl
  | succ b ih =>
    exact walkWith_append hys hp h (fun _ _ hlink => ih hlink) (b + 1) fun _ _ => rfl

theorem isEntryName_ne_dot {name : String} (h : isEntryName name = true) : name ≠ "." := by
  rintro rfl
  exact absurd h (by decide)

theorem isEntryName_ne_dotdot {name : String} (h : isEntryName name = true) : name ≠ ".." := by
  rintro rfl
  exact absurd h (by decide)

/-- What a walk along entry names ends with, when none of them is a link: the location they
spell, found or missing in its directory, or a failure. -/
inductive Spelled (d : Disk C) (cur : Location) (names : List String) : Lookup → Prop
  | found {e : Entry C} (he : d.get? (cur ++ names) = some e) :
    Spelled d cur names (.found (cur ++ names))
  | missing (hnames : names ≠ []) (hnone : d.get? (cur ++ names) = none)
    (hparent : d.get? (cur ++ names.dropLast) = some .dir) :
    Spelled d cur names (.missing (cur ++ names))
  | error (e : OsError) : Spelled d cur names (.error e)

theorem Spelled.of_missing {cur p : Location} {names : List String}
    (h : Spelled d cur names (.missing p)) : d.get? (cur ++ names) = none := by
  cases h with
  | missing _ hnone _ => exact hnone

theorem Spelled.of_found {cur p : Location} {names : List String}
    (h : Spelled d cur names (.found p)) : ∃ e, d.get? (cur ++ names) = some e := by
  cases h with
  | found he => exact ⟨_, he⟩

theorem walkWith_spelled {onLink : Location → List String → Lookup} {cur : Location}
    {names : List String} (hcur : d.get? cur = some .dir)
    (hnames : ∀ name ∈ names, isEntryName name = true)
    (hlinks : ∀ q, q <+: names → ∀ target, d.get? (cur ++ q) ≠ some (.link target)) :
    Spelled d cur names (walkWith d follow onLink cur names) := by
  induction names generalizing cur with
  | nil =>
    have hfound := Spelled.found (by rw [List.append_nil]; exact hcur)
    rw [List.append_nil] at hfound
    exact hfound
  | cons name rest ih =>
    have hname := hnames name List.mem_cons_self
    have hsnoc : cur ++ name :: rest = cur ++ [name] ++ rest := List.append_cons ..
    rw [walkWith, if_neg (isEntryName_ne_dot hname), if_neg (isEntryName_ne_dotdot hname)]
    have hhere : ∀ target, d.get? (cur ++ [name]) ≠ some (.link target) :=
      hlinks [name] (List.prefix_append [name] rest)
    cases hentry : d.get? (cur ++ [name]) with
    | none =>
      dsimp only
      split
      · next hrest =>
        subst hrest
        exact .missing (List.cons_ne_nil _ _) hentry (by
          rw [List.dropLast_singleton, List.append_nil]
          exact hcur)
      · exact .error _
    | some entry =>
      cases entry with
      | dir =>
        have hwalk := ih hentry (fun n hn => hnames n (List.mem_cons_of_mem _ hn))
          fun q hq target => by
            rw [← List.append_cons]
            exact hlinks (name :: q) (List.prefix_cons_inj name |>.mpr hq) target
        dsimp only
        generalize walkWith d follow onLink (cur ++ [name]) rest = out at hwalk
        cases hwalk with
        | found he => exact hsnoc ▸ .found (hsnoc ▸ he)
        | missing hne hnone hparent =>
          rw [← hsnoc]
          refine .missing (List.cons_ne_nil _ _) (by rw [hsnoc]; exact hnone) ?_
          rw [List.dropLast_cons_of_ne_nil hne, List.append_cons]
          exact hparent
        | error e => exact .error e
      | file content =>
        dsimp only
        split
        · next hrest =>
          subst hrest
          exact .found hentry
        · exact .error _
      | link target => exact absurd hentry (hhere target)

/-- **A walk along entry names without links** ends at the location they spell, if it does not
fail. -/
theorem walk_spelled {b : Nat} {cur : Location} {names : List String}
    (hcur : d.get? cur = some .dir) (hnames : ∀ name ∈ names, isEntryName name = true)
    (hlinks : ∀ q, q <+: names → ∀ target, d.get? (cur ++ q) ≠ some (.link target)) :
    Spelled d cur names (walk d follow b cur names) := by
  cases b with
  | zero => exact walkWith_spelled hcur hnames hlinks
  | succ b => exact walkWith_spelled hcur hnames hlinks

/-- Along a location that is there, a walk finds it. -/
theorem walkWith_located {onLink : Location → List String → Lookup} {cur : Location}
    {names : List String} {e : Entry C} (he : d.get? (cur ++ names) = some e)
    (hlink : e.isLink = false) :
    walkWith d follow onLink cur names = .found (cur ++ names) := by
  induction names generalizing cur with
  | nil =>
    rw [List.append_nil]
    rfl
  | cons name rest ih =>
    rw [List.append_cons] at he
    rw [List.append_cons]
    have hhere : ∃ e', d.get? (cur ++ [name]) = some e' := by
      by_cases hrest : rest = []
      · subst hrest
        rw [List.append_nil] at he
        exact ⟨e, he⟩
      · exact ⟨_, Disk.ancestor_dir hrest he⟩
    obtain ⟨e', he'⟩ := hhere
    have hname := (Disk.parent_dir he').2
    rw [walkWith, if_neg (isEntryName_ne_dot hname), if_neg (isEntryName_ne_dotdot hname)]
    by_cases hrest : rest = []
    · subst hrest
      rw [List.append_nil] at he ⊢
      rw [he]
      cases e with
      | dir => rfl
      | file content => rfl
      | link target => cases hlink
    · rw [Disk.ancestor_dir hrest he]
      exact ih he

theorem walk_located {b : Nat} {cur : Location} {names : List String} {e : Entry C}
    (he : d.get? (cur ++ names) = some e) (hlink : e.isLink = false) :
    walk d follow b cur names = .found (cur ++ names) := by
  cases b with
  | zero => exact walkWith_located he hlink
  | succ b => exact walkWith_located he hlink

/-- Along entry names without links, two disks that agree on the way are walked alike. -/
theorem walkWith_agree {d' : Disk C} {onLink onLink' : Location → List String → Lookup}
    {cur : Location} {names : List String} (hnames : ∀ name ∈ names, isEntryName name = true)
    (hlinks : ∀ q, q <+: names → ∀ target, d.get? (cur ++ q) ≠ some (.link target))
    (hsame : ∀ q, q <+: names → d'.get? (cur ++ q) = d.get? (cur ++ q)) :
    walkWith d' follow onLink' cur names = walkWith d follow onLink cur names := by
  induction names generalizing cur with
  | nil => rfl
  | cons name rest ih =>
    have hname := hnames name List.mem_cons_self
    have hdot := isEntryName_ne_dot hname
    have hup := isEntryName_ne_dotdot hname
    rw [walkWith, walkWith, if_neg hdot, if_neg hdot, if_neg hup, if_neg hup,
      hsame [name] (List.prefix_append [name] rest)]
    cases hentry : d.get? (cur ++ [name]) with
    | none => rfl
    | some entry =>
      cases entry with
      | dir =>
        refine ih (fun n hn => hnames n (List.mem_cons_of_mem _ hn)) (fun q hq target => ?_)
          fun q hq => ?_
        · rw [← List.append_cons]
          exact hlinks (name :: q) (List.prefix_cons_inj name |>.mpr hq) target
        · rw [← List.append_cons]
          exact hsame (name :: q) (List.prefix_cons_inj name |>.mpr hq)
      | file content => rfl
      | link target =>
        exact absurd hentry (hlinks [name] (List.prefix_append [name] rest) target)

/-- Where a walk finds a name missing, nothing is. -/
theorem walkWith_missing {onLink : Location → List String → Lookup} {cur p : Location}
    {names : List String} (hlink : ∀ start todo, onLink start todo = .missing p → d.get? p = none)
    (h : walkWith d follow onLink cur names = .missing p) : d.get? p = none := by
  induction names generalizing cur with
  | nil => cases h
  | cons name rest ih =>
    rw [walkWith] at h
    split at h
    · exact ih h
    split at h
    · exact ih h
    split at h
    next hnone =>
      split at h
      · cases h
        exact hnone
      · cases h
    next => exact ih h
    next => split at h <;> cases h
    next =>
      split at h
      · cases h
      · exact hlink _ _ h

theorem walk_missing {b : Nat} {cur p : Location} {names : List String}
    (h : walk d follow b cur names = .missing p) : d.get? p = none := by
  induction b generalizing cur names with
  | zero => exact walkWith_missing (fun _ _ hl => by cases hl) h
  | succ b ih => exact walkWith_missing (fun _ _ hl => ih hl) h

/-- Where a walk that follows links arrives, one that stops at the last link arrives too. -/
theorem walkWith_nofollow {onLink onLink' : Location → List String → Lookup} {cur p : Location}
    {names : List String}
    (hlink : ∀ start todo, onLink start todo = .found p → ∃ q, onLink' start todo = .found q)
    (h : walkWith d true onLink cur names = .found p) :
    ∃ q, walkWith d false onLink' cur names = .found q := by
  induction names generalizing cur with
  | nil => exact ⟨cur, rfl⟩
  | cons name rest ih =>
    rw [walkWith] at h ⊢
    split at h
    next hdot => rw [if_pos hdot]; exact ih h
    next hdot =>
    rw [if_neg hdot]
    split at h
    next hup => rw [if_pos hup]; exact ih h
    next hup =>
    rw [if_neg hup]
    split at h
    · split at h <;> cases h
    next hdir => exact ih h
    next hfile =>
      split at h
      next hrest => exact ⟨_, if_pos hrest⟩
      · cases h
    next target hl =>
      rw [if_neg fun hand => Bool.noConfusion hand.2] at h
      by_cases hrest : rest = []
      · exact ⟨_, if_pos ⟨hrest, rfl⟩⟩
      · rw [if_neg fun hand => hrest hand.1]
        exact hlink _ _ h

theorem walk_nofollow {b : Nat} {cur p : Location} {names : List String}
    (h : walk d true b cur names = .found p) : ∃ q, walk d false b cur names = .found q := by
  induction b generalizing cur names with
  | zero => exact walkWith_nofollow (fun _ _ hl => by cases hl) h
  | succ b ih => exact walkWith_nofollow (fun _ _ hl => ih hl) h

/-- Where a walk does not fail, it arrived one name before. -/
theorem walkWith_init {onLink onLink' : Location → List String → Lookup} {cur : Location}
    {names : List String} {last : String}
    (hlink : ∀ start todo, (∀ e, onLink start (todo ++ [last]) ≠ .error e) →
      ∃ q, onLink' start todo = .found q)
    (h : ∀ e, walkWith d follow onLink cur (names ++ [last]) ≠ .error e) :
    ∃ q, walkWith d true onLink' cur names = .found q := by
  induction names generalizing cur with
  | nil => exact ⟨cur, rfl⟩
  | cons name rest ih =>
    have hrest : rest ++ [last] ≠ [] := List.append_ne_nil_of_right_ne_nil rest (List.cons_ne_nil _ _)
    rw [List.cons_append, walkWith] at h
    rw [walkWith]
    split at h
    next hdot => rw [if_pos hdot]; exact ih h
    next hdot =>
    rw [if_neg hdot]
    split at h
    next hup => rw [if_pos hup]; exact ih h
    next hup =>
    rw [if_neg hup]
    cases hentry : d.get? (cur ++ [name]) with
    | none =>
      rw [hentry] at h
      exact absurd rfl (h _)
    | some entry =>
      rw [hentry] at h
      cases entry with
      | dir => exact ih h
      | file content =>
        exact absurd rfl (h _)
      | link target =>
        dsimp only at h ⊢
        rw [if_neg fun hand => Bool.noConfusion hand.2]
        rw [if_neg fun hand => hrest hand.1, ← List.append_assoc] at h
        exact hlink _ _ h

theorem walk_init {b : Nat} {cur : Location} {names : List String} {last : String}
    (h : ∀ e, walk d follow b cur (names ++ [last]) ≠ .error e) :
    ∃ q, walk d true b cur names = .found q := by
  induction b generalizing cur names with
  | zero => exact walkWith_init (fun _ _ hl => absurd rfl (hl _)) h
  | succ b ih => exact walkWith_init (fun _ _ hl => ih hl) h

/-- What a walk that follows links finds is an entry and no link, if it starts in a directory or its
last name is that of an entry. -/
theorem walkWith_entry {onLink : Location → List String → Lookup} {cur p : Location}
    {names : List String}
    (hlink : ∀ start todo, d.get? start = some .dir → onLink start todo = .found p →
      ∃ e, d.get? p = some e ∧ e.isLink = false)
    (hstart : d.get? cur = some .dir ∨ ∃ last, names.getLast? = some last ∧ isEntryName last = true)
    (h : walkWith d true onLink cur names = .found p) :
    ∃ e, d.get? p = some e ∧ e.isLink = false := by
  induction names generalizing cur with
  | nil =>
    cases h
    rcases hstart with hdir | ⟨_, hnone, -⟩
    · exact ⟨_, hdir, rfl⟩
    · cases hnone
  | cons name rest ih =>
    have hlast : isEntryName name = false → (∃ last, (name :: rest).getLast? = some last ∧
        isEntryName last = true) → ∃ last, rest.getLast? = some last ∧ isEntryName last = true := by
      rintro hname ⟨last, hlast, hentry⟩
      cases rest with
      | nil =>
        rw [← Option.some.inj hlast] at hentry
        change isEntryName name = true at hentry
        rw [hname] at hentry
        cases hentry
      | cons x xs => exact ⟨last, (List.getLast?_cons_cons ▸ hlast), hentry⟩
    rw [walkWith] at h
    split at h
    next hdot => exact ih (hstart.imp_right (hlast (by rw [hdot]; decide))) h
    split at h
    next hup =>
      refine ih (hstart.imp (fun hdir => ?_) (hlast (by rw [hup]; decide))) h
      rcases List.eq_nil_or_concat cur with rfl | ⟨q, x, rfl⟩
      · exact hdir
      · rw [List.concat_eq_append] at hdir ⊢
        rw [List.dropLast_concat]
        exact (Disk.parent_dir hdir).1
    split at h
    · split at h <;> cases h
    next hdir => exact ih (.inl hdir) h
    next hfile =>
      split at h
      · cases h
        exact ⟨_, hfile, rfl⟩
      · cases h
    next text hl =>
      rw [if_neg fun hand => Bool.noConfusion hand.2] at h
      refine hlink _ _ ?_ h
      unfold startOf
      split
      · exact d.get?_root
      · exact (Disk.parent_dir hl).1

theorem walk_entry {b : Nat} {cur p : Location} {names : List String}
    (hstart : d.get? cur = some .dir ∨ ∃ last, names.getLast? = some last ∧ isEntryName last = true)
    (h : walk d true b cur names = .found p) : ∃ e, d.get? p = some e ∧ e.isLink = false := by
  induction b generalizing cur names with
  | zero => exact walkWith_entry (fun _ _ _ hl => by cases hl) hstart h
  | succ b ih => exact walkWith_entry (fun _ _ hdir hl => ih (.inl hdir) hl) hstart h

/-- Every way through `d` is one through `d'`: its directories and links are there. -/
structure WaysIn (d d' : Disk C) : Prop where
  dirs : ∀ p, d.get? p = some .dir → d'.get? p = some .dir
  links : ∀ p target, d.get? p = some (.link target) → d'.get? p = some (.link target)

/-- **Where the ways are kept, a walk finds what it found**, unless that was a file that is gone. -/
theorem walkWith_ways {d' : Disk C} {onLink onLink' : Location → List String → Lookup}
    {cur p : Location} {names : List String} (hways : WaysIn d d')
    (hend : ∀ content, d.get? p = some (.file content) →
      ∃ content', d'.get? p = some (.file content'))
    (hlink : ∀ start todo, onLink start todo = .found p → onLink' start todo = .found p)
    (h : walkWith d follow onLink cur names = .found p) :
    walkWith d' follow onLink' cur names = .found p := by
  induction names generalizing cur with
  | nil =>
    cases h
    rfl
  | cons name rest ih =>
    rw [walkWith] at h ⊢
    split at h
    next hdot => rw [if_pos hdot]; exact ih h
    next hdot =>
    rw [if_neg hdot]
    split at h
    next hup => rw [if_pos hup]; exact ih h
    next hup =>
    rw [if_neg hup]
    split at h
    · split at h <;> cases h
    next hdir =>
      rw [hways.dirs _ hdir]
      exact ih h
    next content hfile =>
      split at h
      next hrest =>
        cases h
        obtain ⟨content', hfile'⟩ := hend content hfile
        rw [hfile']
        exact if_pos hrest
      · cases h
    next target hl =>
      rw [hways.links _ _ hl]
      dsimp only at h ⊢
      split at h
      next hstop =>
        cases h
        exact if_pos hstop
      next hgo =>
        rw [if_neg hgo]
        exact hlink _ _ h

theorem walk_ways {d' : Disk C} {b : Nat} {cur p : Location} {names : List String}
    (hways : WaysIn d d')
    (hend : ∀ content, d.get? p = some (.file content) →
      ∃ content', d'.get? p = some (.file content'))
    (h : walk d follow b cur names = .found p) : walk d' follow b cur names = .found p := by
  induction b generalizing cur names with
  | zero => exact walkWith_ways hways hend (fun _ _ hl => by cases hl) h
  | succ b ih => exact walkWith_ways hways hend (fun _ _ hl => ih hl) h

/-- What is put where a walk found a name missing is found by the walk. -/
theorem walkWith_put {onLink onLink' : Location → List String → Lookup} {cur p : Location}
    {names : List String} {e : Entry C} (hcan : d.CanPut p) (hnone : d.get? p = none)
    (he : e.isLink = false)
    (hlink : ∀ start todo, onLink start todo = .missing p → onLink' start todo = .found p)
    (h : walkWith d follow onLink cur names = .missing p) :
    walkWith (d.put p e) true onLink' cur names = .found p := by
  have hkept : ∀ q e', d.get? q = some e' → (d.put p e).get? q = some e' := by
    intro q e' he'
    rw [Disk.get?_put_of_ne, he']
    rintro rfl
    rw [hnone] at he'
    cases he'
  induction names generalizing cur with
  | nil => cases h
  | cons name rest ih =>
    rw [walkWith] at h ⊢
    split at h
    next hdot => rw [if_pos hdot]; exact ih h
    next hdot =>
    rw [if_neg hdot]
    split at h
    next hup => rw [if_pos hup]; exact ih h
    next hup =>
    rw [if_neg hup]
    split at h
    next =>
      split at h
      next hrest =>
        cases h
        subst hrest
        rw [Disk.get?_put hcan, if_pos rfl]
        cases e with
        | dir => rfl
        | file content => rfl
        | link target => cases he
      · cases h
    next hdir =>
      rw [hkept _ _ hdir]
      exact ih h
    next => split at h <;> cases h
    next target hl =>
      rw [hkept _ _ hl]
      dsimp only at h ⊢
      split at h
      next => cases h
      next =>
        rw [if_neg fun hand => Bool.noConfusion hand.2]
        exact hlink _ _ h

theorem walk_put {b : Nat} {cur p : Location} {names : List String} {e : Entry C}
    (hcan : d.CanPut p) (he : e.isLink = false) (h : walk d follow b cur names = .missing p) :
    walk (d.put p e) true b cur names = .found p := by
  have hnone := walk_missing h
  induction b generalizing cur names with
  | zero => exact walkWith_put hcan hnone he (fun _ _ hl => by cases hl) h
  | succ b ih => exact walkWith_put hcan hnone he (fun _ _ hl => ih hl) h

end Walks

/-! ## Where a path stands -/

/-- Two disks of which only what lies below `R` may differ. -/
def SameOutside (R : Location) (m m' : Machine C) : Prop :=
  m'.workdir = m.workdir ∧
    ∀ p, ¬ (R <+: p ∧ p ≠ R) → m'.disk.get? p = m.disk.get? p

theorem SameOutside.refl (R : Location) (m : Machine C) : SameOutside R m m :=
  ⟨rfl, fun _ _ => rfl⟩

theorem SameOutside.trans {R : Location} {m m' m'' : Machine C} (h : SameOutside R m m')
    (h' : SameOutside R m' m'') : SameOutside R m m'' :=
  ⟨h'.1.trans h.1, fun p hp => (h'.2 p hp).trans (h.2 p hp)⟩

/-- The path `dest` leads to the directory at `R`, whatever happens below `R`. -/
def StandsAt (m : Machine C) (dest : PosixPath) (R : Location) : Prop :=
  m.disk.get? R = some .dir ∧ ∀ m', SameOutside R m m' → lookup m' true dest = .found R

theorem StandsAt.mono {m m' : Machine C} {dest : PosixPath} {R : Location}
    (h : StandsAt m dest R) (hm : SameOutside R m m') : StandsAt m' dest R :=
  ⟨(hm.2 R fun hne => hne.2 rfl).trans h.1, fun _ hm' => h.2 _ (hm.trans hm')⟩

/-- The path `dest` leads to the directory at `R`. -/
structure Leads (m : Machine C) (dest : PosixPath) (R : Location) : Prop where
  dir : m.disk.get? R = some .dir
  found : lookup m true dest = .found R

theorem StandsAt.leads {m : Machine C} {dest : PosixPath} {R : Location}
    (h : StandsAt m dest R) : Leads m dest R := ⟨h.1, h.2 m (.refl R m)⟩

/-- **A path below a directory**: without links on the way from the directory on, it is looked up
at the location it spells. -/
theorem lookup_below {m : Machine C} {dest : PosixPath} {R : Location} {names : List String}
    {follow : Bool} (h : Leads m dest R) (hnil : names ≠ [])
    (hnames : ∀ name ∈ names, isEntryName name = true)
    (hlinks : ∀ q, q <+: names → ∀ target, m.disk.get? (R ++ q) ≠ some (.link target)) :
    Spelled m.disk R names (lookup m follow ⟨dest.absolute, dest.names ++ names⟩) := by
  have hdest := h.found
  unfold lookup at hdest ⊢
  dsimp only
  split
  next habs =>
    rw [if_pos habs] at hdest
    obtain ⟨b, hb⟩ := walk_append hnil h.dir hdest
    rw [hb]
    exact walk_spelled h.dir hnames hlinks
  next habs =>
    rw [if_neg habs] at hdest
    split at hdest
    · cases hdest
    · rw [if_neg (fun hnil' => hnil (List.append_eq_nil_iff.mp hnil').2)]
      obtain ⟨b, hb⟩ := walk_append hnil h.dir hdest
      rw [hb]
      exact walk_spelled h.dir hnames hlinks

/-- An entry that is no link is found under the path of its location. -/
theorem lookup_located {m : Machine C} {p : Location} {e : Entry C} {follow : Bool}
    (he : m.disk.get? p = some e) (hlink : e.isLink = false) :
    lookup m follow ⟨true, p⟩ = .found p :=
  walk_located he hlink

/-- So is one below a path that stands at a directory. -/
theorem lookup_located_below {m : Machine C} {dest : PosixPath} {R : Location}
    {names : List String} {e : Entry C} {follow : Bool} (h : Leads m dest R)
    (hnil : names ≠ []) (he : m.disk.get? (R ++ names) = some e) (hlink : e.isLink = false) :
    lookup m follow ⟨dest.absolute, dest.names ++ names⟩ = .found (R ++ names) := by
  have hdest := h.found
  unfold lookup at hdest ⊢
  dsimp only
  split
  next habs =>
    rw [if_pos habs] at hdest
    obtain ⟨b, hb⟩ := walk_append hnil h.dir hdest
    rw [hb]
    exact walk_located he hlink
  next habs =>
    rw [if_neg habs] at hdest
    split at hdest
    · cases hdest
    · rw [if_neg (fun hnil' => hnil (List.append_eq_nil_iff.mp hnil').2)]
      obtain ⟨b, hb⟩ := walk_append hnil h.dir hdest
      rw [hb]
      exact walk_located he hlink

/-- Where a path can be looked up, the path above it is found. -/
theorem lookup_head {m : Machine C} {follow absolute : Bool} {names : List String} {last : String}
    (hhead : absolute = true ∨ names ≠ [])
    (h : ∀ e, lookup m follow ⟨absolute, names ++ [last]⟩ ≠ .error e) :
    ∃ q, lookup m true ⟨absolute, names⟩ = .found q := by
  unfold lookup at h ⊢
  dsimp only at h ⊢
  split at h
  next habs =>
    rw [if_pos habs]
    exact walk_init h
  next habs =>
    rw [if_neg habs, if_neg (hhead.resolve_left habs)]
    split at h
    · exact absurd rfl (h _)
    · exact walk_init h

/-- What is found under a path that ends with the name of an entry is an entry and no link. -/
theorem lookup_entry {m : Machine C} {p : PosixPath} {name : String} {q : Location}
    (hname : isEntryName name = true) (h : lookup m true (p.child name) = .found q) :
    ∃ e, m.disk.get? q = some e ∧ e.isLink = false := by
  have hlast : ∃ last, (p.child name).names.getLast? = some last ∧ isEntryName last = true :=
    ⟨name, List.getLast?_concat, hname⟩
  unfold lookup at h
  split at h
  · exact walk_entry (.inr hlast) h
  · split at h
    · cases h
    · exact walk_entry (.inr hlast) h

theorem lookup_plain {m : Machine C} {p : PosixPath} {name : String} {q : Location}
    (hname : isEntryName name = true) (h : lookup m true (p.child name) = .found q)
    (target : String) : m.disk.get? q ≠ some (.link target) := by
  obtain ⟨e, he, hlink⟩ := lookup_entry hname h
  rw [he]
  rintro ⟨⟩
  cases hlink

/-- **Where the ways are kept, a path leads where it led.** -/
theorem lookup_ways {m m' : Machine C} {p : PosixPath} {q : Location} {follow : Bool}
    (hways : WaysIn m.disk m'.disk) (hwork : m'.workdir = m.workdir)
    (hend : ∀ content, m.disk.get? q = some (.file content) →
      ∃ content', m'.disk.get? q = some (.file content'))
    (h : lookup m follow p = .found q) : lookup m' follow p = .found q := by
  unfold lookup at h ⊢
  split at h
  next habs =>
    rw [if_pos habs]
    exact walk_ways hways hend h
  next habs =>
    rw [if_neg habs]
    split at h
    · cases h
    next hnil =>
      rw [if_neg hnil, hwork]
      exact walk_ways hways hend h

theorem Leads.ways {m m' : Machine C} {dest : PosixPath} {R : Location} (h : Leads m dest R)
    (hways : WaysIn m.disk m'.disk) (hwork : m'.workdir = m.workdir) : Leads m' dest R :=
  ⟨hways.dirs R h.dir, lookup_ways hways hwork (fun _ hfile => by
    rw [h.dir] at hfile
    cases hfile) h.found⟩

/-- What is put where a path was missing is found under it. -/
theorem lookup_put {m : Machine C} {p : PosixPath} {q : Location} {follow : Bool} {e : Entry C}
    (hcan : m.disk.CanPut q) (he : e.isLink = false) (h : lookup m follow p = .missing q) :
    lookup { m with disk := m.disk.put q e } true p = .found q := by
  unfold lookup at h ⊢
  split at h
  next habs =>
    rw [if_pos habs]
    exact walk_put hcan he h
  next habs =>
    rw [if_neg habs]
    split at h
    · cases h
    next hnil =>
      rw [if_neg hnil]
      exact walk_put hcan he h

/-- Two machines that agree along the path of a location look it up alike. -/
theorem lookup_agree {m m' : Machine C} {p : Location} {follow : Bool}
    (hnames : ∀ name ∈ p, isEntryName name = true)
    (hlinks : ∀ q, q <+: p → ∀ target, m.disk.get? q ≠ some (.link target))
    (hsame : ∀ q, q <+: p → m'.disk.get? q = m.disk.get? q) :
    lookup m' follow ⟨true, p⟩ = lookup m follow ⟨true, p⟩ :=
  walkWith_agree hnames hlinks hsame

/-- Where a path is missing, nothing is. -/
theorem lookup_missing {m : Machine C} {p : PosixPath} {q : Location} {follow : Bool}
    (h : lookup m follow p = .missing q) : m.disk.get? q = none := by
  unfold lookup at h
  split at h
  · exact walk_missing h
  · split at h
    · cases h
    · exact walk_missing h

/-- A path that is found is found without following its last link too. -/
theorem lookup_nofollow {m : Machine C} {p : PosixPath} {q : Location}
    (h : lookup m true p = .found q) : ∃ q', lookup m false p = .found q' := by
  unfold lookup at h ⊢
  split at h
  next habs =>
    rw [if_pos habs]
    exact walk_nofollow h
  next habs =>
    rw [if_neg habs]
    split at h
    · cases h
    next hnil =>
      rw [if_neg hnil]
      exact walk_nofollow h

end ClawEngine.Posix
