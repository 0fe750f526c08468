import Mathlib.Data.List.Nodup

/-!
# Insertion-ordered dictionaries

A `Dict` is a list of items with distinct keys, in the order the keys were first inserted. Setting
a present key replaces its value where it stands; a new key goes to the end. Both the lookup, which
does not see the order, and the order itself, which iteration and printing show, are facts about
the one list.
-/

set_option autoImplicit false

namespace ClawEngine.Core

universe u v w

/-- A dictionary: items with distinct keys, oldest key first. -/
@[ext] structure Dict (K : Type u) (V : Type v) where
  items : List (K × V)
  nodup : (items.map Prod.fst).Nodup

namespace Dict

variable {K : Type u} {V : Type v} {W : Type w}

/-- The dictionary with no item. -/
def empty : Dict K V := ⟨[], List.nodup_nil⟩

instance : EmptyCollection (Dict K V) := ⟨empty⟩
instance : Inhabited (Dict K V) := ⟨empty⟩

/-- The keys, in insertion order. -/
def keys (d : Dict K V) : List K := d.items.map Prod.fst

theorem nodup_keys (d : Dict K V) : d.keys.Nodup := d.nodup

/-- The items whose key satisfies `p`. -/
def filterKeys (p : K → Bool) (d : Dict K V) : Dict K V :=
  ⟨d.items.filter (p ·.1), d.nodup.sublist (List.filter_sublist.map _)⟩

/-- Every value replaced by a function of its item. -/
def mapItems (f : K → V → W) (d : Dict K V) : Dict K W :=
  ⟨d.items.map fun p => (p.1, f p.1 p.2), by
    simpa only [List.map_map, Function.comp_def] using d.nodup⟩

@[simp] theorem keys_mapItems (f : K → V → W) (d : Dict K V) : (d.mapItems f).keys = d.keys := by
  simp only [keys, mapItems, List.map_map, Function.comp_def]

variable [DecidableEq K]

/-- The value at a key of a list of items. -/
def lookupIn (k : K) : List (K × V) → Option V
  | [] => none
  | (k', v) :: rest => if k' = k then some v else lookupIn k rest

/-- `d.get(k)`. -/
def get? (d : Dict K V) (k : K) : Option V := lookupIn k d.items

/-- Replace the value at a present key of a list of items. -/
private def replaceIn (k : K) (v : V) (items : List (K × V)) : List (K × V) :=
  items.map fun p => if p.1 = k then (p.1, v) else p

private theorem map_fst_replaceIn (k : K) (v : V) (items : List (K × V)) :
    (replaceIn k v items).map Prod.fst = items.map Prod.fst := by
  simp only [replaceIn, List.map_map]
  apply List.map_congr_left
  intro p _
  by_cases h : p.1 = k <;> simp only [Function.comp_apply, h, if_true, if_false]

/-- `d[k] = v`. -/
def set (d : Dict K V) (k : K) (v : V) : Dict K V :=
  if h : k ∈ d.keys then
    ⟨replaceIn k v d.items, by rw [map_fst_replaceIn]; exact d.nodup⟩
  else
    ⟨d.items ++ [(k, v)], by
      rw [List.map_append, List.map_cons, List.map_nil]
      exact d.nodup.append (List.nodup_singleton k)
        (List.disjoint_singleton.mpr h)⟩

/-- `d.update(e)`. -/
def update (d e : Dict K V) : Dict K V := e.items.foldl (fun acc p => acc.set p.1 p.2) d

theorem lookupIn_eq_none {k : K} {items : List (K × V)} :
    lookupIn k items = none ↔ k ∉ items.map Prod.fst := by
  induction items with
  | nil => simp only [lookupIn, List.map_nil, List.not_mem_nil, not_false_eq_true]
  | cons p rest ih =>
    by_cases h : p.1 = k
    · simp only [lookupIn, h, if_true, reduceCtorEq, List.map_cons, List.mem_cons, true_or,
        not_true_eq_false]
    · simp only [lookupIn, h, if_false, ih, List.map_cons, List.mem_cons, Ne.symm h, false_or]

theorem lookupIn_eq_some {k : K} {v : V} {items : List (K × V)}
    (nodup : (items.map Prod.fst).Nodup) : lookupIn k items = some v ↔ (k, v) ∈ items := by
  induction items with
  | nil => simp only [lookupIn, reduceCtorEq, List.not_mem_nil]
  | cons p rest ih =>
    have hn := List.nodup_cons.mp nodup
    by_cases h : p.1 = k
    · subst h
      have hrest : (p.1, v) ∉ rest := fun hm => hn.1 (List.mem_map.mpr ⟨_, hm, rfl⟩)
      simp only [lookupIn, if_true, Option.some.injEq, List.mem_cons, hrest, or_false,
        Prod.ext_iff, true_and, eq_comm]
    · have hp : (k, v) ≠ p := fun he => h (he ▸ rfl)
      simp only [lookupIn, h, if_false, ih hn.2, List.mem_cons, hp, false_or]

theorem get?_eq_none {d : Dict K V} {k : K} : d.get? k = none ↔ k ∉ d.keys :=
  lookupIn_eq_none

theorem get?_eq_some {d : Dict K V} {k : K} {v : V} : d.get? k = some v ↔ (k, v) ∈ d.items :=
  lookupIn_eq_some d.nodup

theorem mem_keys {d : Dict K V} {k : K} : k ∈ d.keys ↔ (d.get? k).isSome := by
  rw [Option.isSome_iff_ne_none, Ne, get?_eq_none, not_not]

@[simp] theorem get?_empty (k : K) : (empty : Dict K V).get? k = none := rfl

private theorem lookupIn_replaceIn (k k' : K) (v : V) (items : List (K × V))
    (h : k ∈ items.map Prod.fst) :
    lookupIn k' (replaceIn k v items) = if k' = k then some v else lookupIn k' items := by
  induction items with
  | nil => cases h
  | cons p rest ih =>
    have hrest : k ∉ rest.map Prod.fst →
        lookupIn k' (replaceIn k v rest) = lookupIn k' rest := by
      intro hk
      have : replaceIn k v rest = rest := by
        refine (List.map_congr_left fun q hq => ?_).trans (List.map_id _)
        have : q.1 ≠ k := fun he => hk (he ▸ List.mem_map_of_mem hq)
        simp only [this, if_false, id]
      rw [this]
    by_cases hp : p.1 = k
    · by_cases hk' : k' = k
      · simp only [replaceIn, List.map_cons, hp, if_true, lookupIn, hk']
      · by_cases hr : k ∈ rest.map Prod.fst
        · have := ih hr
          simp only [replaceIn, List.map_cons, hp, if_true, lookupIn, Ne.symm hk', if_false,
            hk'] at this ⊢
          exact this
        · have := hrest hr
          simp only [replaceIn, List.map_cons, hp, if_true, lookupIn, Ne.symm hk', if_false,
            hk'] at this ⊢
          exact this
    · have hr : k ∈ rest.map Prod.fst := by
        rcases List.mem_cons.mp h with h | h
        · exact absurd h.symm hp
        · exact h
      have := ih hr
      by_cases hk' : p.1 = k'
      · have hne : k' ≠ k := fun he => hp (hk'.trans he)
        simp only [replaceIn, List.map_cons, if_false, lookupIn, hk', if_true, hne]
      · simp only [replaceIn, List.map_cons, hp, if_false, lookupIn, hk'] at this ⊢
        exact this

private theorem lookupIn_append (k : K) (xs ys : List (K × V)) :
    lookupIn k (xs ++ ys) = (lookupIn k xs).or (lookupIn k ys) := by
  induction xs with
  | nil => simp only [List.nil_append, lookupIn, Option.none_or]
  | cons p rest ih =>
    by_cases h : p.1 = k
    · simp only [List.cons_append, lookupIn, h, if_true, Option.some_or]
    · simp only [List.cons_append, lookupIn, h, if_false, ih]

private theorem items_set_of_mem {d : Dict K V} {k : K} (v : V) (h : k ∈ d.keys) :
    (d.set k v).items = replaceIn k v d.items := by
  unfold set
  rw [dif_pos h]

private theorem items_set_of_not_mem {d : Dict K V} {k : K} (v : V) (h : k ∉ d.keys) :
    (d.set k v).items = d.items ++ [(k, v)] := by
  unfold set
  rw [dif_neg h]

theorem get?_set (d : Dict K V) (k k' : K) (v : V) :
    (d.set k v).get? k' = if k' = k then some v else d.get? k' := by
  by_cases h : k ∈ d.keys
  · rw [get?, items_set_of_mem v h, lookupIn_replaceIn k k' v d.items h, get?]
  · rw [get?, items_set_of_not_mem v h, lookupIn_append]
    by_cases hk : k' = k
    · subst hk
      rw [if_pos rfl, lookupIn_eq_none.mpr h, Option.none_or, lookupIn, if_pos rfl]
    · rw [if_neg hk, lookupIn, if_neg (Ne.symm hk), lookupIn, Option.or_none, get?]

@[simp] theorem get?_set_self (d : Dict K V) (k : K) (v : V) : (d.set k v).get? k = some v := by
  rw [get?_set, if_pos rfl]

theorem get?_set_of_ne (d : Dict K V) {k k' : K} (v : V) (h : k' ≠ k) :
    (d.set k v).get? k' = d.get? k' := by
  rw [get?_set, if_neg h]

/-- A new key goes to the end; a present one keeps its place. -/
theorem keys_set (d : Dict K V) (k : K) (v : V) :
    (d.set k v).keys = if k ∈ d.keys then d.keys else d.keys ++ [k] := by
  by_cases h : k ∈ d.keys
  · rw [if_pos h, keys, items_set_of_mem v h, map_fst_replaceIn, keys]
  · rw [if_neg h, keys, items_set_of_not_mem v h, List.map_append, keys]
    rfl

theorem get?_filterKeys (d : Dict K V) (p : K → Bool) (k : K) :
    (d.filterKeys p).get? k = if p k then d.get? k else none := by
  change lookupIn k (d.items.filter (p ·.1)) = if p k then lookupIn k d.items else none
  induction d.items with
  | nil => simp only [List.filter_nil, lookupIn, ite_self]
  | cons q rest ih =>
    by_cases hq : p q.1 = true
    · by_cases hk : q.1 = k
      · subst hk
        simp only [List.filter_cons, hq, if_true, lookupIn]
      · simp only [List.filter_cons, hq, if_true, lookupIn, hk, if_false]
        exact ih
    · by_cases hk : q.1 = k
      · subst hk
        simp only [List.filter_cons, hq, Bool.false_eq_true, if_false] at ih ⊢
        exact ih
      · simp only [List.filter_cons, hq, Bool.false_eq_true, if_false, lookupIn, hk] at ih ⊢
        exact ih

theorem get?_mapItems (f : K → V → W) (d : Dict K V) (k : K) :
    (d.mapItems f).get? k = (d.get? k).map (f k) := by
  change lookupIn k (d.items.map fun p => (p.1, f p.1 p.2)) = (lookupIn k d.items).map (f k)
  induction d.items with
  | nil => rfl
  | cons q rest ih =>
    by_cases hk : q.1 = k
    · subst hk
      simp only [List.map_cons, lookupIn, if_true, Option.map_some]
    · simp only [List.map_cons, lookupIn, hk, if_false] at ih ⊢
      exact ih

private theorem get?_foldl_set (items : List (K × V)) (d : Dict K V) (k : K)
    (nodup : (items.map Prod.fst).Nodup) :
    (items.foldl (fun acc p => acc.set p.1 p.2) d).get? k =
      (lookupIn k items).or (d.get? k) := by
  induction items generalizing d with
  | nil => simp only [List.foldl_nil, lookupIn, Option.none_or]
  | cons p rest ih =>
    have hn := List.nodup_cons.mp nodup
    rw [List.foldl_cons, ih (d.set p.1 p.2) hn.2]
    by_cases h : p.1 = k
    · subst h
      simp only [lookupIn_eq_none.mpr hn.1, Option.none_or, get?_set_self, lookupIn, if_true,
        Option.some_or]
    · simp only [get?_set_of_ne d p.2 (Ne.symm h), lookupIn, h, if_false]

/-- An updated dictionary answers from the update first. -/
theorem get?_update (d e : Dict K V) (k : K) :
    (d.update e).get? k = (e.get? k).or (d.get? k) :=
  get?_foldl_set e.items d k e.nodup

private theorem keys_foldl_set {V' : Type w} (items : List (K × V)) (items' : List (K × V'))
    (d : Dict K V) (d' : Dict K V') (hd : d.keys = d'.keys)
    (h : items.map Prod.fst = items'.map Prod.fst) :
    (items.foldl (fun acc p => acc.set p.1 p.2) d).keys =
      (items'.foldl (fun acc p => acc.set p.1 p.2) d').keys := by
  induction items generalizing items' d d' with
  | nil =>
    cases items' with
    | nil => exact hd
    | cons p' rest' => cases h
  | cons p rest ih =>
    cases items' with
    | nil => cases h
    | cons p' rest' =>
      obtain ⟨hp, hrest⟩ := List.cons.inj h
      refine ih rest' (d.set p.1 p.2) (d'.set p'.1 p'.2) ?_ hrest
      rw [keys_set, keys_set, hd, hp]

/-- The order of the keys after an update does not depend on the values. -/
theorem keys_update_congr {V' : Type w} {d e : Dict K V} {d' e' : Dict K V'}
    (hd : d.keys = d'.keys) (he : e.keys = e'.keys) : (d.update e).keys = (d'.update e').keys :=
  keys_foldl_set e.items e'.items d d' hd he

private theorem items_map_some (d : Dict K V) :
    d.items.map (fun p => (p.1, some p.2)) = d.keys.map fun k => (k, d.get? k) := by
  rw [keys, List.map_map]
  apply List.map_congr_left
  intro p hp
  rw [Function.comp_apply, get?_eq_some.mpr hp]

/-- Two dictionaries with the same keys in the same order and the same lookups are equal. -/
theorem ext_get? {d e : Dict K V} (hk : d.keys = e.keys) (h : ∀ k, d.get? k = e.get? k) :
    d = e := by
  have hmap : d.items.map (fun p => (p.1, some p.2)) = e.items.map fun p => (p.1, some p.2) := by
    rw [items_map_some, items_map_some, hk]
    exact List.map_congr_left fun k _ => by rw [h]
  have hinj : Function.Injective fun p : K × V => (p.1, some p.2) := by
    rintro ⟨a, b⟩ ⟨a', b'⟩ hab
    simpa only [Prod.mk.injEq, Option.some.injEq] using hab
  exact Dict.ext (List.map_injective_iff.mpr hinj hmap)

end Dict

end ClawEngine.Core
