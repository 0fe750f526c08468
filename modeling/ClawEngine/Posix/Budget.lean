import ClawEngine.Posix.Lookup

/-!
# How many links a walk follows

A walk that found something followed a number of links. With that many more links in its budget, it
goes on from there as a walk with the budget that is left; so what is found with a budget is found
with a larger one.
-/

set_option autoImplicit false

namespace ClawEngine.Posix

variable {C : Type} {d : Disk C} {cur p q : Location} {xs ys rest : List String} {name : String}

/-- What a walk with the budget does at a link. -/
def atLink (d : Disk C) (follow : Bool) : (budget : Nat) → Location → List String → Lookup
  | 0 => fun _ _ => .error .tooManyLinks
  | budget + 1 => walk d follow budget

theorem walk_eq_walkWith (d : Disk C) (follow : Bool) (b : Nat) :
    walk d follow b = walkWith d follow (atLink d follow b) := by
  cases b with
  | zero => rfl
  | succ b => rfl

theorem walk_nil (d : Disk C) (follow : Bool) (b : Nat) (cur : Location) :
    walk d follow b cur [] = .found cur := by
  rw [walk_eq_walkWith]
  rfl

theorem walk_dot (d : Disk C) (b : Nat) (cur : Location) (rest : List String) :
    walk d true b cur ("." :: rest) = walk d true b cur rest := by
  rw [walk_eq_walkWith, walkWith, if_pos rfl]

theorem walk_up (d : Disk C) (b : Nat) (cur : Location) (rest : List String) :
    walk d true b cur (".." :: rest) = walk d true b cur.dropLast rest := by
  rw [walk_eq_walkWith, walkWith, if_neg (by decide), if_pos rfl]

theorem walk_dir (hdot : name ≠ ".") (hup : name ≠ "..") (hdir : d.get? (cur ++ [name]) = some .dir)
    (b : Nat) (rest : List String) :
    walk d true b cur (name :: rest) = walk d true b (cur ++ [name]) rest := by
  rw [walk_eq_walkWith, walkWith, if_neg hdot, if_neg hup, hdir]

theorem walk_link {target : String} (hdot : name ≠ ".") (hup : name ≠ "..")
    (hlink : d.get? (cur ++ [name]) = some (.link target)) (b : Nat) (rest : List String) :
    walk d true b cur (name :: rest) =
      atLink d true b (startOf cur (PosixPath.ofString target))
        ((PosixPath.ofString target).names ++ rest) := by
  rw [walk_eq_walkWith, walkWith, if_neg hdot, if_neg hup, hlink]
  exact if_neg fun hand => Bool.noConfusion hand.2

/-- The walk along `xs` follows `k` links to `p`: what comes next is walked from there, with what is
left of the budget. Nothing comes next where `p` is a file. -/
def Follows (d : Disk C) (cur : Location) (xs : List String) (p : Location) (k : Nat) : Prop :=
  ∀ ys, d.get? p = some .dir ∨ ys = [] → ∀ b,
    walk d true (k + b) cur (xs ++ ys) = walk d true b p ys

theorem walkWith_follows {b : Nat} {onLink : Location → List String → Lookup}
    (hlink : ∀ start todo, onLink start todo = .found p → ∃ k < b, Follows d start todo p k)
    (h : walkWith d true onLink cur xs = .found p) : ∃ k ≤ b, Follows d cur xs p k := by
  induction xs generalizing cur with
  | nil =>
    cases h
    refine ⟨0, Nat.zero_le b, fun ys _ b' => ?_⟩
    rw [Nat.zero_add, List.nil_append]
  | cons name rest ih =>
    rw [walkWith] at h
    split at h
    next hdot =>
      obtain ⟨k, hk, hrest⟩ := ih h
      refine ⟨k, hk, fun ys hys b' => ?_⟩
      rw [hdot, List.cons_append, walk_dot, hrest ys hys]
    next hdot =>
    split at h
    next hup =>
      obtain ⟨k, hk, hrest⟩ := ih h
      refine ⟨k, hk, fun ys hys b' => ?_⟩
      rw [hup, List.cons_append, walk_up, hrest ys hys]
    next hup =>
    split at h
    · split at h <;> cases h
    next hdir =>
      obtain ⟨k, hk, hrest⟩ := ih h
      refine ⟨k, hk, fun ys hys b' => ?_⟩
      rw [List.cons_append, walk_dir hdot hup hdir, hrest ys hys]
    next hfile =>
      split at h
      next hnil =>
        subst hnil
        cases h
        refine ⟨0, Nat.zero_le b, fun ys hys b' => ?_⟩
        rcases hys with hdir | rfl
        · rw [hfile] at hdir
          cases hdir
        · rw [List.append_nil, walk_nil, walk_eq_walkWith, walkWith, if_neg hdot, if_neg hup, hfile]
          rfl
      · cases h
    next target hl =>
      rw [if_neg fun hand => Bool.noConfusion hand.2] at h
      obtain ⟨k, hk, htarget⟩ := hlink _ _ h
      refine ⟨k + 1, hk, fun ys hys b' => ?_⟩
      rw [List.cons_append, walk_link hdot hup hl, ← List.append_assoc, Nat.add_right_comm]
      exact htarget ys hys b'

/-- **What a walk found took a number of links**, within its budget. -/
theorem walk_follows {b : Nat} (h : walk d true b cur xs = .found p) :
    ∃ k ≤ b, Follows d cur xs p k := by
  induction b generalizing cur xs with
  | zero => exact walkWith_follows (fun _ _ hl => by cases hl) h
  | succ b ih =>
    refine walkWith_follows (fun _ _ hl => ?_) h
    obtain ⟨k, hk, hfollows⟩ := ih hl
    exact ⟨k, Nat.lt_succ_of_le hk, hfollows⟩

theorem Follows.found {k : Nat} (h : Follows d cur xs p k) {b : Nat} (hb : k ≤ b) :
    walk d true b cur xs = .found p := by
  obtain ⟨b', rfl⟩ := Nat.exists_eq_add_of_le hb
  have hwalk := h [] (.inr rfl) b'
  rwa [List.append_nil, walk_nil] at hwalk

/-- **What is found with a budget is found with a larger one.** -/
theorem walk_more {b b' : Nat} (hb : b ≤ b') (h : walk d true b cur xs = .found p) :
    walk d true b' cur xs = .found p := by
  obtain ⟨k, hk, hfollows⟩ := walk_follows h
  exact hfollows.found (Nat.le_trans hk hb)

/-- What is found behind a link is found without the link. -/
theorem walk_of_atLink {b b' : Nat} (hb : b ≤ b') (h : atLink d true b cur xs = .found p) :
    walk d true b' cur xs = .found p := by
  cases b with
  | zero => cases h
  | succ b => exact walk_more (Nat.le_of_succ_le hb) h

/-- What is found with a budget is found behind a link with a larger one. -/
theorem atLink_of_walk {b b' : Nat} (hb : b < b') (h : walk d true b cur xs = .found p) :
    atLink d true b' cur xs = .found p := by
  cases b' with
  | zero => cases hb
  | succ b' => exact walk_more (Nat.le_of_lt_succ hb) h

/-- Where a walk finds something, it finds something on the way. -/
theorem walk_upto {b : Nat} (h : walk d true b cur (xs ++ ys) = .found p) :
    ∃ q, walk d true b cur xs = .found q := by
  induction ys using List.reverseRecOn generalizing p with
  | nil =>
    rw [List.append_nil] at h
    exact ⟨p, h⟩
  | append_singleton ys last ih =>
    rw [← List.append_assoc] at h
    have hsome : ∀ e, walk d true b cur (xs ++ ys ++ [last]) ≠ .error e := by
      intro e he
      rw [h] at he
      cases he
    obtain ⟨q, hq⟩ := walk_init hsome
    exact ih hq

end ClawEngine.Posix
