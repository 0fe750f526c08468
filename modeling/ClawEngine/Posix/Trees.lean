import ClawEngine.Posix.Visible

/-!
# Trees of entries

What stands at a place and below it, by the names that lead there: as the disk has it, or as a path
sees it through links. `LaidOver` is what copying a directory onto another leaves: the directories
and files of the one at their places, and the rest of the other as it was. A file whose place is
taken by a directory comes to lie in that directory, under its own name.
-/

set_option autoImplicit false

namespace ClawEngine.Posix

open ClawEngine.Core

variable {C : Type}

/-- The entries at a place and below it, by the names that lead there. -/
abbrev Tree (C : Type) := List String → Option (Entry C)

/-- What stands under a name of the tree. -/
def Tree.under (t : Tree C) (name : String) : Tree C := fun rel => t (name :: rel)

/-! ## One tree over another -/

/-- The tree `new` is `src`, whose own name is `base`, laid over `old`. -/
structure LaidOver (base : String) (src old new : Tree C) : Prop where
  dir : ∀ rel, src rel = some .dir → new rel = some .dir
  file : ∀ rel content, src rel = some (.file content) → old rel ≠ some .dir →
    new rel = some (.file content)
  inside : ∀ rel content, src rel = some (.file content) → old rel = some .dir →
    new rel = some .dir ∧ new (rel ++ [rel.getLastD base]) = some (.file content)
  other : ∀ rel, src rel = none → (∀ init, rel = init ++ [init.getLastD base] →
    (∃ content, src init = some (.file content)) → old init ≠ some .dir) → new rel = old rel

namespace LaidOver

variable {base : String} {src old new mid : Tree C} {content : C}

/-- Nothing laid over a tree. -/
theorem absent (hsrc : ∀ rel, src rel = none) (hnew : new = old) : LaidOver base src old new := by
  subst hnew
  refine ⟨fun rel h => ?_, fun rel content h => ?_, fun rel content h => ?_, fun _ _ _ => rfl⟩
  · rw [hsrc] at h
    cases h
  · rw [hsrc] at h
    cases h
  · rw [hsrc] at h
    cases h

/-- A file laid over what is no directory. -/
theorem of_file (hfile : src [] = some (.file content))
    (hbelow : ∀ name rel, src (name :: rel) = none) (hold : old [] ≠ some .dir)
    (hnew : ∀ rel, new rel = if rel = [] then some (.file content) else old rel) :
    LaidOver base src old new where
  dir rel h := by
    cases rel with
    | nil =>
      rw [hfile] at h
      cases h
    | cons name rel =>
      rw [hbelow] at h
      cases h
  file rel content' h _ := by
    cases rel with
    | nil => rw [hnew, if_pos rfl, ← hfile, h]
    | cons name rel =>
      rw [hbelow] at h
      cases h
  inside rel content' h hdir := by
    cases rel with
    | nil => exact absurd hdir hold
    | cons name rel =>
      rw [hbelow] at h
      cases h
  other rel h _ := by
    rw [hnew, if_neg]
    rintro rfl
    rw [hfile] at h
    cases h

/-- A file laid over a directory. -/
theorem of_file_inside (hfile : src [] = some (.file content))
    (hbelow : ∀ name rel, src (name :: rel) = none) (hold : old [] = some .dir)
    (hnew : ∀ rel, new rel = if rel = [base] then some (.file content) else old rel) :
    LaidOver base src old new where
  dir rel h := by
    cases rel with
    | nil =>
      rw [hfile] at h
      cases h
    | cons name rel =>
      rw [hbelow] at h
      cases h
  file rel content' h hnodir := by
    cases rel with
    | nil => exact absurd hold hnodir
    | cons name rel =>
      rw [hbelow] at h
      cases h
  inside rel content' h _ := by
    cases rel with
    | nil =>
      refine ⟨by rw [hnew, if_neg (List.cons_ne_nil base []).symm, hold], ?_⟩
      rw [hnew, ← h, hfile]
      exact if_pos rfl
    | cons name rel =>
      rw [hbelow] at h
      cases h
  other rel h hother := by
    rw [hnew, if_neg]
    rintro rfl
    exact hother [] rfl ⟨content, hfile⟩ hold

/-- **A directory laid over another**: what stands under each name is laid over what stood there. -/
theorem of_children (hsrc : src [] = some .dir) (hnew : new [] = some .dir)
    (h : ∀ name, LaidOver name (src.under name) (old.under name) (new.under name)) :
    LaidOver base src old new where
  dir rel hdir := by
    cases rel with
    | nil => exact hnew
    | cons name rel => exact (h name).dir rel hdir
  file rel content hfile hnodir := by
    cases rel with
    | nil =>
      rw [hsrc] at hfile
      cases hfile
    | cons name rel => exact (h name).file rel content hfile hnodir
  inside rel content hfile hdir := by
    cases rel with
    | nil =>
      rw [hsrc] at hfile
      cases hfile
    | cons name rel =>
      rw [List.getLastD_cons, List.cons_append]
      exact (h name).inside rel content hfile hdir
  other rel hnone hother := by
    cases rel with
    | nil =>
      rw [hsrc] at hnone
      cases hnone
    | cons name rel =>
      refine (h name).other rel hnone fun init hinit => hother (name :: init) ?_
      rw [List.cons_append, List.getLastD_cons, ← hinit]

/-- Laid over twice is laid over once. -/
theorem again (h : LaidOver base src old mid) (h' : LaidOver base src mid new) :
    LaidOver base src old new where
  dir := h'.dir
  file rel content hfile hnodir := by
    refine h'.file rel content hfile ?_
    rw [h.file rel content hfile hnodir]
    exact nofun
  inside rel content hfile hdir := h'.inside rel content hfile (h.inside rel content hfile hdir).1
  other rel hnone hother := by
    rw [h'.other rel hnone, h.other rel hnone hother]
    rintro init hinit ⟨content, hfile⟩
    have hmid := h.file init content hfile (hother init hinit ⟨content, hfile⟩)
    rw [hmid]
    exact nofun

/-- **What is laid over what determines the result.** -/
theorem unique {new' : Tree C} (h : LaidOver base src old new) (h' : LaidOver base src old new')
    (hlinks : ∀ rel target, src rel ≠ some (.link target)) : new = new' := by
  funext rel
  cases hsrc : src rel with
  | none =>
    by_cases hinside : ∃ init content, rel = init ++ [init.getLastD base] ∧
        src init = some (.file content) ∧ old init = some .dir
    · obtain ⟨init, content, rfl, hfile, hdir⟩ := hinside
      rw [(h.inside init content hfile hdir).2, (h'.inside init content hfile hdir).2]
    · have hout : ∀ init, rel = init ++ [init.getLastD base] →
          (∃ content, src init = some (.file content)) → old init ≠ some .dir := by
        rintro init hinit ⟨content, hfile⟩ hdir
        exact hinside ⟨init, content, hinit, hfile, hdir⟩
      rw [h.other rel hsrc hout, h'.other rel hsrc hout]
  | some e =>
    cases e with
    | dir => rw [h.dir rel hsrc, h'.dir rel hsrc]
    | file content =>
      by_cases hold : old rel = some .dir
      · rw [(h.inside rel content hsrc hold).1, (h'.inside rel content hsrc hold).1]
      · rw [h.file rel content hsrc hold, h'.file rel content hsrc hold]
    | link target => exact absurd hsrc (hlinks rel target)

/-- **Where the result is the tree that was laid over**: everything that was there has a place in
it, and a directory that was there has a directory's. -/
theorem eq_iff (h : LaidOver base src old new)
    (hlinks : ∀ rel target, src rel ≠ some (.link target)) :
    (∀ rel, new rel = src rel) ↔
      ∀ rel, old rel ≠ none → src rel ≠ none ∧ (old rel = some .dir → src rel = some .dir) := by
  constructor
  · intro heq rel hold
    have hfiles : ∀ init content, src init = some (.file content) → old init ≠ some .dir := by
      intro init content hfile hdir
      have hnew := (h.inside init content hfile hdir).1
      rw [heq, hfile] at hnew
      cases hnew
    cases hsrc : src rel with
    | none =>
      rw [← h.other rel hsrc fun init _ hfile => hfiles init _ hfile.choose_spec, heq] at hold
      exact absurd hsrc hold
    | some e =>
      refine ⟨nofun, fun hdir => ?_⟩
      cases e with
      | dir => rfl
      | file content => exact absurd hdir (hfiles rel content hsrc)
      | link target => exact absurd hsrc (hlinks rel target)
  · intro hold rel
    have hfiles : ∀ init, (∃ content, src init = some (.file content)) →
        old init ≠ some .dir := by
      rintro init ⟨content, hfile⟩ hdir
      have hsrc := (hold init (by rw [hdir]; exact nofun)).2 hdir
      rw [hfile] at hsrc
      cases hsrc
    cases hsrc : src rel with
    | none =>
      rw [h.other rel hsrc fun init _ => hfiles init]
      by_contra hne
      exact (hold rel hne).1 hsrc
    | some e =>
      cases e with
      | dir => exact h.dir rel hsrc
      | file content => exact h.file rel content hsrc (hfiles rel ⟨content, hsrc⟩)
      | link target => exact absurd hsrc (hlinks rel target)

end LaidOver

/-! ## Trees of a disk -/

/-- The tree at a location. -/
def Disk.treeAt (d : Disk C) (T : Location) : Tree C := fun rel => d.get? (T ++ rel)

theorem Disk.treeAt_under (d : Disk C) (T : Location) (name : String) :
    (d.treeAt T).under name = d.treeAt (T ++ [name]) := by
  funext rel
  show d.get? (T ++ name :: rel) = d.get? (T ++ [name] ++ rel)
  rw [List.append_cons]

/-! ## Entries that were removed -/

/-- From `m` to `m'` the entries of `R` with these names were removed, with all below them, and
nothing else happened. -/
structure Removed (R : Location) (names : List String) (m m' : Machine C) : Prop where
  workdir : m'.workdir = m.workdir
  gone : ∀ s ∈ names, ∀ q, R ++ [s] <+: q → m'.disk.get? q = none
  kept : ∀ q, (∀ s ∈ names, ¬ R ++ [s] <+: q) → m'.disk.get? q = m.disk.get? q

/-- The machine without these entries of `R`. -/
def Machine.without (m : Machine C) (R : Location) (names : List String) : Machine C :=
  names.foldl (fun m s => { m with disk := m.disk.prune (R ++ [s]) }) m

section Removals

variable {R : Location} {names names' : List String} {m m' m'' : Machine C} {s : String}

namespace Removed

theorem refl (R : Location) (m : Machine C) : Removed R [] m m := ⟨rfl, nofun, fun _ _ => rfl⟩

theorem trans (h : Removed R names m m') (h' : Removed R names' m' m'') :
    Removed R (names ++ names') m m'' where
  workdir := h'.workdir.trans h.workdir
  gone s hs q hq := by
    by_cases hagain : ∃ s' ∈ names', R ++ [s'] <+: q
    · obtain ⟨s', hs', hq'⟩ := hagain
      exact h'.gone s' hs' q hq'
    · have hs := (List.mem_append.mp hs).resolve_right fun hs => hagain ⟨s, hs, hq⟩
      rw [h'.kept q fun s' hs' hq' => hagain ⟨s', hs', hq'⟩]
      exact h.gone s hs q hq
  kept q hq := by
    rw [h'.kept q fun s hs => hq s (List.mem_append_right _ hs),
      h.kept q fun s hs => hq s (List.mem_append_left _ hs)]

theorem of_confined (h : Confined (R ++ [s]) m m')
    (hgone : ∀ q, R ++ [s] <+: q → m'.disk.get? q = none) : Removed R [s] m m' where
  workdir := h.workdir
  gone s' hs' q hq := by
    rw [List.mem_singleton.mp hs'] at hq
    exact hgone q hq
  kept q hq := h.outside q (hq s (List.mem_singleton_self s))

theorem prune (R : Location) (s : String) (m : Machine C) :
    Removed R [s] m { m with disk := m.disk.prune (R ++ [s]) } where
  workdir := rfl
  gone s' hs' q hq := by
    rw [List.mem_singleton.mp hs'] at hq
    rw [Disk.get?_prune _ (List.concat_ne_nil s R), if_pos hq]
  kept q hq := Disk.get?_prune_of_apart _ (hq s (List.mem_singleton_self s))

theorem without (R : Location) (names : List String) (m : Machine C) :
    Removed R names m (m.without R names) := by
  induction names generalizing m with
  | nil => exact .refl R m
  | cons s names ih => exact (prune R s m).trans (ih _)

/-- What is left of one removal leads where what is left of another does. -/
theorem leads {dest : PosixPath} (h : Removed R names m m') (h' : Removed R names m m'')
    (hleads : Leads m' dest R) : Leads m'' dest R := by
  have hsame : ∀ q, m''.disk.get? q = m'.disk.get? q := by
    intro q
    by_cases hgone : ∃ s ∈ names, R ++ [s] <+: q
    · obtain ⟨s, hs, hq⟩ := hgone
      rw [h.gone s hs q hq, h'.gone s hs q hq]
    · have hkept : ∀ s ∈ names, ¬ R ++ [s] <+: q := fun s hs hq => hgone ⟨s, hs, hq⟩
      rw [h.kept q hkept, h'.kept q hkept]
  refine hleads.ways ⟨fun q hq => ?_, fun q target hq => ?_⟩ (h'.workdir.trans h.workdir.symm)
  · rw [hsame, hq]
  · rw [hsame, hq]

/-- Nothing is added. -/
theorem shrinks (h : Removed R names m m') : Shrinks m m' where
  workdir := h.workdir
  entries q e he := by
    by_cases hgone : ∃ s ∈ names, R ++ [s] <+: q
    · obtain ⟨s, hs, hq⟩ := hgone
      rw [h.gone s hs q hq] at he
      cases he
    · rwa [h.kept q fun s hs hq => hgone ⟨s, hs, hq⟩] at he

/-- What is at or below another entry is as it was. -/
theorem treeAt_eq (h : Removed R names m m') (hs : s ∉ names) :
    m'.disk.treeAt (R ++ [s]) = m.disk.treeAt (R ++ [s]) := by
  funext rel
  refine h.kept _ fun s' hs' hpre => hs ?_
  rwa [entry_prefix_inj (List.prefix_append _ rel) hpre]

theorem sameOutside (h : Removed R names m m') : SameOutside R m m' := by
  refine ⟨h.workdir, fun q hq => h.kept q fun s _ hpre => hq ?_⟩
  exact below_entry hpre

end Removed

end Removals

/-! ## Trees that a path sees -/

/-- The tree that a path sees, through links. -/
def treeOf (m : Machine C) (p : PosixPath) : Tree C := fun rel =>
  if rel.all isEntryName then entryOf m (p.descend rel) else none

section Seen

variable {m m' : Machine C} {p : PosixPath} {q : Location} {name : String}

theorem child_descend (p : PosixPath) (name : String) (rel : List String) :
    (p.child name).descend rel = p.descend (name :: rel) := by
  simp only [PosixPath.descend, PosixPath.child, List.append_assoc, List.singleton_append]

theorem treeOf_nil (m : Machine C) (p : PosixPath) : treeOf m p [] = entryOf m p := by
  show entryOf m ⟨p.absolute, p.names ++ []⟩ = _
  rw [List.append_nil]

/-- What a path that ends with a name of an entry sees is no link. -/
theorem treeOf_noLink (hname : isEntryName name = true) (rel : List String) (target : String) :
    treeOf m (p.child name) rel ≠ some (.link target) := by
  have hentry : ∀ (r : PosixPath) n, isEntryName n = true →
      entryOf m (r.child n) ≠ some (.link target) := by
    intro r n hn
    unfold entryOf
    split
    next q hq => exact lookup_plain hn hq target
    · exact nofun
  unfold treeOf
  split
  next hrel =>
    rcases List.eq_nil_or_concat rel with rfl | ⟨init, last, rfl⟩
    · rw [descend_nil]
      exact hentry p name hname
    · rw [List.concat_eq_append] at hrel ⊢
      rw [← descend_child]
      exact hentry _ last (List.all_eq_true.mp hrel last (List.mem_append_right _ List.mem_cons_self))
  · exact nofun

theorem treeOf_under (m : Machine C) (p : PosixPath) (hname : isEntryName name = true) :
    (treeOf m p).under name = treeOf m (p.child name) := by
  funext rel
  simp only [Tree.under, treeOf, List.all_cons, hname, Bool.true_and, child_descend]

theorem walk_absent {d : Disk C} {follow : Bool} {b : Nat} {cur : Location} {rest : List String}
    (hname : isEntryName name = true) (hnone : d.get? (cur ++ [name]) = none) (r : Location) :
    walk d follow b cur (name :: rest) ≠ .found r := by
  have hwith : ∀ onLink, walkWith d follow onLink cur (name :: rest) ≠ .found r := by
    intro onLink hfound
    rw [walkWith, if_neg (isEntryName_ne_dot hname), if_neg (isEntryName_ne_dotdot hname),
      hnone] at hfound
    dsimp only at hfound
    split at hfound <;> cases hfound
  cases b <;> exact hwith _

/-- What is not in a directory is not seen in it. -/
theorem treeOf_absent (h : GoesOn m p q) (hnone : m.disk.get? (q ++ [name]) = none)
    (rel : List String) : treeOf m p (name :: rel) = none := by
  unfold treeOf
  split
  next hnames =>
    obtain ⟨b, hb⟩ := h.walks true (name :: rel) (List.cons_ne_nil name rel)
    have hname := (Bool.and_eq_true_iff.mp hnames).1
    unfold entryOf
    rw [hb]
    split
    next r hr => exact absurd hr (walk_absent hname hnone r)
    · rfl
  · rfl

theorem walkWith_past_file {d : Disk C} {follow : Bool}
    {onLink onLink' : Location → List String → Lookup} {cur place : Location} {xs rest : List String}
    {content : C} (hname : isEntryName name = true) (hfile : d.get? place = some (.file content))
    (hlink : ∀ start todo r, onLink start todo = .found place →
      onLink' start (todo ++ name :: rest) ≠ .found r)
    (h : walkWith d true onLink cur xs = .found place) (r : Location) :
    walkWith d follow onLink' cur (xs ++ name :: rest) ≠ .found r := by
  induction xs generalizing cur with
  | nil =>
    obtain rfl := Lookup.found.inj h
    have hnone : d.get? (cur ++ [name]) = none := by
      by_contra hsome
      obtain ⟨e, he⟩ := Option.ne_none_iff_exists'.mp hsome
      rw [(Disk.parent_dir he).1] at hfile
      cases hfile
    rw [List.nil_append, walkWith, if_neg (isEntryName_ne_dot hname),
      if_neg (isEntryName_ne_dotdot hname), hnone]
    intro hfound
    dsimp only at hfound
    split at hfound <;> cases hfound
  | cons x xs ih =>
    have hrest : xs ++ name :: rest ≠ [] :=
      List.append_ne_nil_of_right_ne_nil xs (List.cons_ne_nil name rest)
    rw [walkWith] at h
    rw [List.cons_append, walkWith]
    split
    next hdot =>
      rw [if_pos hdot] at h
      exact ih h
    next hdot =>
    rw [if_neg hdot] at h
    split
    next hup =>
      rw [if_pos hup] at h
      exact ih h
    next hup =>
    rw [if_neg hup] at h
    split
    next => exact fun hfound => Lookup.noConfusion hfound
    next hdir =>
      rw [hdir] at h
      exact ih h
    next => exact fun hfound => Lookup.noConfusion hfound
    next target hlinked =>
      rw [hlinked] at h
      dsimp only at h
      rw [if_neg fun hand => Bool.noConfusion hand.2] at h
      rw [if_neg fun hand => hrest hand.1]
      dsimp only
      have hon := hlink _ _ r h
      rwa [List.append_assoc] at hon

theorem walk_past_file {d : Disk C} {follow : Bool} {b : Nat} {cur place : Location}
    {xs rest : List String} {content : C} (hname : isEntryName name = true)
    (hfile : d.get? place = some (.file content)) (h : walk d true b cur xs = .found place)
    (r : Location) : walk d follow b cur (xs ++ name :: rest) ≠ .found r := by
  induction b generalizing cur xs r with
  | zero => exact walkWith_past_file hname hfile (fun _ _ _ hl => by cases hl) h r
  | succ b ih =>
    exact walkWith_past_file hname hfile
      (fun start todo r (hl : walk d true b start todo = .found place) => ih hl r) h r

/-- Nothing is seen below a file. -/
theorem treeOf_below_file {content : C} (h : entryOf m p = some (.file content)) (name : String)
    (rel : List String) : treeOf m p (name :: rel) = none := by
  obtain ⟨absolute, names⟩ := p
  unfold treeOf
  split
  next hnames =>
    have hname := (Bool.and_eq_true_iff.mp hnames).1
    unfold entryOf at h ⊢
    split at h
    next q hq =>
      have hpast : ∀ r, lookup m true ⟨absolute, names ++ name :: rel⟩ ≠ .found r := by
        intro r
        unfold lookup at hq ⊢
        dsimp only at hq ⊢
        split at hq
        next habs =>
          rw [if_pos habs]
          exact walk_past_file hname h hq r
        next habs =>
          split at hq
          · cases hq
          · rw [if_neg habs,
              if_neg (List.append_ne_nil_of_right_ne_nil names (List.cons_ne_nil name rel))]
            exact walk_past_file hname h hq r
      split
      next r hr => exact absurd hr (hpast r)
      · rfl
    · cases h
  · rfl

end Seen

end ClawEngine.Posix
