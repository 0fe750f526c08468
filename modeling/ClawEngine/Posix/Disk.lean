import ClawEngine.Core.Dict
import ClawEngine.Posix.Path
import Mathlib.Data.List.Induction

/-!
# Disks

A disk is a set of entries, each at its location: directories, files with their content, and
symbolic links with their target. The root is always there. An entry stands in a directory and has
a name an entry can have, so a location whose parent is no directory holds nothing, and where a
directory is empty nothing lies below it.

A content belongs to one location. There are no hard links, so writing a file changes nothing under
another name: what is proved of files is proved of disks on which each has one name.
-/

set_option autoImplicit false

namespace ClawEngine.Posix

open ClawEngine.Core

variable {C : Type}

/-- An entry of a directory; a file has a content in `C`. -/
inductive Entry (C : Type)
  | dir
  | file (content : C)
  | link (target : String)

/-- Whether an entry is a link. -/
def Entry.isLink : Entry C → Bool
  | .link _ => true
  | _ => false

/-- The entry at a location of a dictionary of entries, the root included. -/
def entryAt (entries : Dict Location (Entry C)) (p : Location) : Option (Entry C) :=
  if p = [] then some .dir else entries.get? p

/-- The entries of a disk; each stands in a directory, under a name an entry can have. No two
locations share a file (hard links are not modelled). -/
structure Disk (C : Type) where
  entries : Dict Location (Entry C)
  rooted : ∀ p, p ∈ entries.keys →
    ∃ q name, p = q ++ [name] ∧ isEntryName name = true ∧ entryAt entries q = some .dir

namespace Disk

/-- The entry at a location. -/
def get? (d : Disk C) (p : Location) : Option (Entry C) := entryAt d.entries p

@[simp] theorem get?_root (d : Disk C) : d.get? [] = some .dir := rfl

theorem get?_of_ne_nil (d : Disk C) {p : Location} (h : p ≠ []) : d.get? p = d.entries.get? p :=
  if_neg h

/-- The disk with the root alone. -/
def empty : Disk C := ⟨∅, nofun⟩

theorem get?_empty {p : Location} (h : p ≠ []) : (empty : Disk C).get? p = none :=
  get?_of_ne_nil _ h

/-- What stands at a location stands in a directory. -/
theorem parent_dir {d : Disk C} {q : Location} {name : String} {e : Entry C}
    (h : d.get? (q ++ [name]) = some e) : d.get? q = some .dir ∧ isEntryName name = true := by
  have hne : q ++ [name] ≠ [] := List.concat_ne_nil name q
  rw [get?_of_ne_nil d hne] at h
  obtain ⟨q', name', heq, hname, hdir⟩ :=
    d.rooted _ (Dict.mem_keys.mpr (Option.isSome_iff_exists.mpr ⟨e, h⟩))
  obtain ⟨hq, hn⟩ := List.append_inj' heq rfl
  rw [← hq] at hdir
  rw [← List.singleton_inj.mp hn] at hname
  exact ⟨hdir, hname⟩

/-- Everything above an entry is a directory. -/
theorem ancestor_dir {d : Disk C} {q rest : Location} {e : Entry C} (hrest : rest ≠ [])
    (h : d.get? (q ++ rest) = some e) : d.get? q = some .dir := by
  induction rest using List.reverseRecOn generalizing e with
  | nil => exact absurd rfl hrest
  | append_singleton rest name ih =>
    rw [← List.append_assoc] at h
    have hparent := (parent_dir h).1
    by_cases hnil : rest = []
    · subst hnil
      rw [List.append_nil] at hparent
      exact hparent
    · exact ih hnil hparent

/-- Whether a directory is at a location. -/
def isDirAt (d : Disk C) (p : Location) : Bool :=
  match d.get? p with
  | some .dir => true
  | _ => false

theorem isDirAt_iff {d : Disk C} {p : Location} :
    d.isDirAt p = true ↔ d.get? p = some .dir := by
  unfold isDirAt
  split
  · next h => rw [h]; exact ⟨fun _ => rfl, fun _ => rfl⟩
  · next h => exact ⟨nofun, fun he => absurd he h⟩

/-! ## Putting and removing entries -/

/-- An entry can be put at a location: under a name, in a directory, and not over one. -/
structure CanPut (d : Disk C) (p : Location) : Prop where
  name : isEntryName (p.getLast?.getD "") = true
  parent : d.isDirAt p.dropLast = true
  noDir : d.isDirAt p = false

theorem canPut_iff {d : Disk C} {p : Location} : d.CanPut p ↔
    isEntryName (p.getLast?.getD "") = true ∧ d.isDirAt p.dropLast = true ∧ d.isDirAt p = false :=
  ⟨fun h => ⟨h.name, h.parent, h.noDir⟩, fun ⟨a, b, c⟩ => ⟨a, b, c⟩⟩

instance (d : Disk C) (p : Location) : Decidable (d.CanPut p) := decidable_of_iff' _ canPut_iff

theorem CanPut.ne_nil {d : Disk C} {p : Location} (h : d.CanPut p) : p ≠ [] := by
  rintro rfl
  exact absurd (isDirAt_iff.mpr d.get?_root) (by rw [h.noDir]; exact Bool.false_ne_true)

/-- A missing name of a directory can be put. -/
theorem canPut_of_missing {d : Disk C} {q : Location} {name : String}
    (hname : isEntryName name = true) (hq : d.get? q = some .dir)
    (hmissing : d.get? (q ++ [name]) = none) : d.CanPut (q ++ [name]) where
  name := by rwa [List.getLast?_concat, Option.getD_some]
  parent := by
    rw [List.dropLast_concat]
    exact isDirAt_iff.mpr hq
  noDir := by rw [isDirAt, hmissing]

/-- What is no directory can be put anew. -/
theorem canPut_of_file {d : Disk C} {p : Location} {content : C}
    (h : d.get? p = some (.file content)) : d.CanPut p := by
  rcases List.eq_nil_or_concat p with rfl | ⟨q, name, rfl⟩
  · cases h
  · rw [List.concat_eq_append] at h ⊢
    obtain ⟨hq, hname⟩ := parent_dir h
    exact
      { name := by rwa [List.getLast?_concat, Option.getD_some]
        parent := by
          rw [List.dropLast_concat]
          exact isDirAt_iff.mpr hq
        noDir := by rw [isDirAt, h] }

private theorem entryAt_set {entries : Dict Location (Entry C)} {p q : Location} {e : Entry C}
    (hp : p ≠ []) :
    entryAt (entries.set p e) q = if q = p then some e else entryAt entries q := by
  unfold entryAt
  by_cases hq : q = []
  · subst hq
    rw [if_pos rfl, if_pos rfl, if_neg (Ne.symm hp)]
  · rw [if_neg hq, if_neg hq, Dict.get?_set]

/-- The disk with an entry put at a location, where it can be. -/
def put (d : Disk C) (p : Location) (e : Entry C) : Disk C :=
  if h : d.CanPut p then
    { entries := d.entries.set p e
      rooted := by
        intro k hk
        have hkept : ∀ q, entryAt d.entries q = some .dir →
            entryAt (d.entries.set p e) q = some .dir := by
          intro q hq
          rw [entryAt_set h.ne_nil, if_neg, hq]
          rintro rfl
          exact absurd (isDirAt_iff.mpr hq) (by rw [h.noDir]; exact Bool.false_ne_true)
        by_cases hkp : k = p
        · subst hkp
          rcases List.eq_nil_or_concat k with hnil | ⟨q, name, hconcat⟩
          · exact absurd hnil h.ne_nil
          · have hname := h.name
            have hparent := h.parent
            rw [List.concat_eq_append] at hconcat
            rw [hconcat, List.getLast?_concat, Option.getD_some] at hname
            rw [hconcat, List.dropLast_concat] at hparent
            exact ⟨q, name, hconcat, hname, hkept q (isDirAt_iff.mp hparent)⟩
        · have hk' : k ∈ d.entries.keys := by
            rw [Dict.mem_keys, Dict.get?_set, if_neg hkp] at hk
            exact Dict.mem_keys.mpr hk
          obtain ⟨q, name, heq, hname, hq⟩ := d.rooted k hk'
          exact ⟨q, name, heq, hname, hkept q hq⟩ }
  else d

theorem get?_put {d : Disk C} {p : Location} (h : d.CanPut p) (e : Entry C) (q : Location) :
    (d.put p e).get? q = if q = p then some e else d.get? q := by
  unfold put
  rw [dif_pos h]
  exact entryAt_set h.ne_nil

theorem get?_put_of_ne {d : Disk C} {p q : Location} (hq : q ≠ p) (e : Entry C) :
    (d.put p e).get? q = d.get? q := by
  by_cases h : d.CanPut p
  · rw [get?_put h, if_neg hq]
  · rw [put, dif_neg h]

/-- The disk without what is at or below a location. -/
def prune (d : Disk C) (p : Location) : Disk C where
  entries := d.entries.filterKeys fun k => !p.isPrefixOf k
  rooted := by
    intro k hk
    rw [Dict.mem_keys, Dict.get?_filterKeys] at hk
    split at hk
    case isFalse => cases hk
    case isTrue hkeep =>
      obtain ⟨q, name, rfl, hname, hq⟩ := d.rooted k (Dict.mem_keys.mpr hk)
      refine ⟨q, name, rfl, hname, ?_⟩
      unfold entryAt at hq ⊢
      by_cases hnil : q = []
      · rw [if_pos hnil]
      · rw [if_neg hnil] at hq ⊢
        rw [Dict.get?_filterKeys, if_pos, hq]
        -- an ancestor of what is kept is kept
        rw [Bool.not_eq_true', ← Bool.not_eq_true, List.isPrefixOf_iff_prefix] at hkeep ⊢
        exact fun hpre => hkeep (hpre.trans (List.prefix_append q [name]))

theorem get?_prune (d : Disk C) {p : Location} (hp : p ≠ []) (q : Location) :
    (d.prune p).get? q = if p <+: q then none else d.get? q := by
  by_cases hq : q = []
  · subst hq
    rw [if_neg (fun h => hp (List.prefix_nil.mp h))]
    rfl
  · rw [get?_of_ne_nil _ hq, get?_of_ne_nil _ hq, prune, Dict.get?_filterKeys]
    by_cases hpre : p <+: q
    · rw [if_pos hpre, if_neg]
      rw [Bool.not_eq_true', Bool.not_eq_false, List.isPrefixOf_iff_prefix]
      exact hpre
    · rw [if_neg hpre, if_pos]
      rw [Bool.not_eq_true', ← Bool.not_eq_true, List.isPrefixOf_iff_prefix]
      exact hpre

/-- What is not below the location is kept. -/
theorem get?_prune_of_apart (d : Disk C) {p q : Location} (h : ¬ p <+: q) :
    (d.prune p).get? q = d.get? q := by
  rw [get?_prune d, if_neg h]
  rintro rfl
  exact h List.nil_prefix

/-- What is left was there. -/
theorem get?_of_prune {d : Disk C} {p q : Location} {e : Entry C}
    (h : (d.prune p).get? q = some e) : d.get? q = some e := by
  by_cases hq : q = []
  · subst hq
    exact h
  · by_cases hpre : p <+: q
    · rw [get?_of_ne_nil _ hq, prune, Dict.get?_filterKeys, if_neg] at h
      · cases h
      · rw [Bool.not_eq_true', Bool.not_eq_false, List.isPrefixOf_iff_prefix]
        exact hpre
    · rwa [get?_prune_of_apart d hpre] at h

/-! ## Listing a directory -/

/-- The names in a directory. -/
def children (d : Disk C) (p : Location) : List String :=
  d.entries.keys.filterMap fun k => if k ≠ [] ∧ k.dropLast = p then k.getLast? else none

theorem mem_children {d : Disk C} {p : Location} {name : String} :
    name ∈ d.children p ↔ (d.get? (p ++ [name])).isSome := by
  rw [get?_of_ne_nil _ (List.concat_ne_nil name p), ← Dict.mem_keys, children, List.mem_filterMap]
  constructor
  · rintro ⟨k, hk, hname⟩
    split at hname
    case isFalse => cases hname
    case isTrue hdrop =>
      obtain ⟨before, rfl⟩ := List.getLast?_eq_some_iff.mp hname
      rw [List.dropLast_concat] at hdrop
      rw [← hdrop.2]
      exact hk
  · intro hk
    refine ⟨_, hk, ?_⟩
    rw [if_pos ⟨List.concat_ne_nil name p, List.dropLast_concat⟩, List.getLast?_concat]

/-- The names along the way to what is there are names of entries. -/
theorem names_of_some {d : Disk C} {p : Location} {e : Entry C} (h : d.get? p = some e) :
    ∀ name ∈ p, isEntryName name = true := by
  induction p using List.reverseRecOn generalizing e with
  | nil => nofun
  | append_singleton q last ih =>
    obtain ⟨hq, hlast⟩ := parent_dir h
    intro name hname
    rcases List.mem_append.mp hname with hname | hname
    · exact ih hq name hname
    · rwa [List.mem_singleton.mp hname]

theorem isEntryName_of_mem_children {d : Disk C} {p : Location} {name : String}
    (h : name ∈ d.children p) : isEntryName name = true := by
  obtain ⟨e, he⟩ := Option.isSome_iff_exists.mp (mem_children.mp h)
  exact (parent_dir he).2

/-- Nothing lies below an empty directory. -/
theorem get?_below_empty {d : Disk C} {p q : Location} (h : d.children p = []) (hpq : p <+: q)
    (hne : q ≠ p) : d.get? q = none := by
  obtain ⟨rest, rfl⟩ := hpq
  rcases rest with _ | ⟨name, rest⟩
  · exact absurd (List.append_nil p) hne
  · by_contra hsome
    obtain ⟨e, he⟩ := Option.ne_none_iff_exists'.mp hsome
    have hchild : (d.get? (p ++ [name])).isSome := by
      by_cases hrest : rest = []
      · subst hrest
        rw [he]
        rfl
      · rw [List.append_cons] at he
        rw [ancestor_dir hrest he]
        rfl
    rw [← mem_children, h] at hchild
    cases hchild

end Disk

end ClawEngine.Posix
