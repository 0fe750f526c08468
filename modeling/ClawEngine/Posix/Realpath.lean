import ClawEngine.Posix.System

/-!
# os.path.realpath

Python resolves a path by itself, name by name, with a table of the links it has met: the ones
whose target is known, and the ones it is still resolving. Meeting one of the latter is a loop, and
what is left of the path is then returned as it is. On a path the system can look up there is no
loop, and Python arrives where the system does.
-/

set_option autoImplicit false

namespace ClawEngine.Posix

open ClawEngine.Core

variable {C : Type}

/-- The table of links met: where each leads, once that is known. -/
abbrev Seen := Dict Location (Option Location)

/-- What `_joinrealpath` returns, with the table it leaves. -/
structure Joined where
  path : Location
  ok : Bool
  seen : Seen

/-- The loop of `_joinrealpath`, with the call it makes at a link. -/
def joinWith (d : Disk C) (onLink : Location → PosixPath → Seen → Option Joined) :
    Location → List String → Seen → Option Joined
  | path, [], seen => some ⟨path, true, seen⟩
  | path, name :: rest, seen =>
    if name = "." then joinWith d onLink path rest seen
    else if name = ".." then joinWith d onLink path.dropLast rest seen
    else
      match d.get? (path ++ [name]) with
      | some (.link target) =>
        match seen.get? (path ++ [name]) with
        | some (some known) => joinWith d onLink known rest seen
        | some none => some ⟨path ++ [name] ++ rest, false, seen⟩
        | none =>
          match onLink path (PosixPath.ofString target) (seen.set (path ++ [name]) none) with
          | none => none
          | some ⟨q, false, seen⟩ => some ⟨q ++ rest, false, seen⟩
          | some ⟨q, true, seen⟩ =>
            joinWith d onLink q rest (seen.set (path ++ [name]) (some q))
      | _ => joinWith d onLink (path ++ [name]) rest seen

/-- `_joinrealpath`; `none` is `RecursionError`. -/
def joinRealpath (d : Disk C) : (fuel : Nat) → Location → List String → Seen → Option Joined
  | 0 => fun _ _ _ => none
  | fuel + 1 => joinWith d fun path target seen =>
      joinRealpath d fuel (startOf path target) target.names seen

/-- `.` and `..` taken out of a path by its text alone. -/
def normalize (names : List String) : Location :=
  names.foldl (fun p name =>
    if name = "." then p else if name = ".." then p.dropLast else p ++ [name]) []

/-- `os.path.realpath`. Only where a loop was met does the path still hold `.` or `..` for
`abspath` to take out. -/
def realpath (m : Machine C) (p : PosixPath) : Except FsError Location :=
  match joinRealpath m.disk recursionLimit (if p.absolute then [] else m.workdir) p.names ∅ with
  | none => .error .recursion
  | some joined => .ok (if joined.ok then joined.path else normalize joined.path)

/-! ## Resolving without a table -/

/-- The names of a path, resolved from a location on: where they lead, and how many links that
takes. Links in the target of a link count. -/
inductive Resolves (d : Disk C) : Location → List String → Location → Nat → Prop
  | nil (cur : Location) : Resolves d cur [] cur 0
  | dot {cur p : Location} {name : String} {rest : List String} {k : Nat} (hdot : name = ".")
    (hrest : Resolves d cur rest p k) : Resolves d cur (name :: rest) p k
  | up {cur p : Location} {name : String} {rest : List String} {k : Nat} (hdot : name ≠ ".")
    (hup : name = "..") (hrest : Resolves d cur.dropLast rest p k) :
    Resolves d cur (name :: rest) p k
  | step {cur p : Location} {name : String} {rest : List String} {k : Nat} (hdot : name ≠ ".")
    (hup : name ≠ "..") (hplain : ∀ target, d.get? (cur ++ [name]) ≠ some (.link target))
    (hrest : Resolves d (cur ++ [name]) rest p k) : Resolves d cur (name :: rest) p k
  | link {cur q p : Location} {name target : String} {rest : List String} {k₁ k₂ : Nat}
    (hdot : name ≠ ".") (hup : name ≠ "..")
    (hlink : d.get? (cur ++ [name]) = some (.link target))
    (htarget : Resolves d (startOf cur (PosixPath.ofString target))
      (PosixPath.ofString target).names q k₁)
    (hrest : Resolves d q rest p k₂) : Resolves d cur (name :: rest) p (k₁ + k₂ + 1)

section Resolving

variable {d : Disk C}

theorem Resolves.unique {cur p p' : Location} {names : List String} {k k' : Nat}
    (h : Resolves d cur names p k) (h' : Resolves d cur names p' k') : p = p' ∧ k = k' := by
  induction h generalizing p' k' with
  | nil =>
    cases h'
    exact ⟨rfl, rfl⟩
  | dot hdot _ ih =>
    cases h' with
    | dot _ hrest' => exact ih hrest'
    | up hdot' => exact absurd hdot hdot'
    | step hdot' => exact absurd hdot hdot'
    | link hdot' => exact absurd hdot hdot'
  | up hdot hup _ ih =>
    cases h' with
    | dot hdot' => exact absurd hdot' hdot
    | up _ _ hrest' => exact ih hrest'
    | step _ hup' => exact absurd hup hup'
    | link _ hup' => exact absurd hup hup'
  | step hdot hup hplain _ ih =>
    cases h' with
    | dot hdot' => exact absurd hdot' hdot
    | up _ hup' => exact absurd hup' hup
    | step _ _ _ hrest' => exact ih hrest'
    | link _ _ hlink' => exact absurd hlink' (hplain _)
  | link hdot hup hlink _ _ ih₁ ih₂ =>
    cases h' with
    | dot hdot' => exact absurd hdot' hdot
    | up _ hup' => exact absurd hup' hup
    | step _ _ hplain' => exact absurd hlink (hplain' _)
    | link _ _ hlink' htarget' hrest' =>
      rw [hlink] at hlink'
      cases hlink'
      obtain ⟨rfl, rfl⟩ := ih₁ htarget'
      obtain ⟨rfl, rfl⟩ := ih₂ hrest'
      exact ⟨rfl, rfl⟩

/-- Disks with the same links lead alike. -/
theorem Resolves.congr {d' : Disk C} {cur p : Location} {names : List String} {k : Nat}
    (hlinks : ∀ q target, d.get? q = some (.link target) ↔ d'.get? q = some (.link target))
    (h : Resolves d cur names p k) : Resolves d' cur names p k := by
  induction h with
  | nil cur => exact .nil cur
  | dot hdot _ ih => exact .dot hdot ih
  | up hdot hup _ ih => exact .up hdot hup ih
  | step hdot hup hplain _ ih =>
    exact .step hdot hup (fun target ht => hplain target ((hlinks _ _).mpr ht)) ih
  | link hdot hup hlink _ _ ih₁ ih₂ => exact .link hdot hup ((hlinks _ _).mp hlink) ih₁ ih₂

/-- The first names lead somewhere, and the rest go on from there. -/
theorem Resolves.split {cur p : Location} {xs ys : List String} {k : Nat}
    (h : Resolves d cur (xs ++ ys) p k) :
    ∃ q k₁ k₂, Resolves d cur xs q k₁ ∧ Resolves d q ys p k₂ ∧ k = k₁ + k₂ := by
  induction xs generalizing cur k with
  | nil => exact ⟨cur, 0, k, .nil cur, h, (Nat.zero_add k).symm⟩
  | cons name xs ih =>
    cases h with
    | dot hdot hrest =>
      obtain ⟨q, k₁, k₂, h₁, h₂, rfl⟩ := ih hrest
      exact ⟨q, k₁, k₂, .dot hdot h₁, h₂, rfl⟩
    | up hdot hup hrest =>
      obtain ⟨q, k₁, k₂, h₁, h₂, rfl⟩ := ih hrest
      exact ⟨q, k₁, k₂, .up hdot hup h₁, h₂, rfl⟩
    | step hdot hup hplain hrest =>
      obtain ⟨q, k₁, k₂, h₁, h₂, rfl⟩ := ih hrest
      exact ⟨q, k₁, k₂, .step hdot hup hplain h₁, h₂, rfl⟩
    | link hdot hup hlink htarget hrest =>
      obtain ⟨q, k₁, k₂, h₁, h₂, rfl⟩ := ih hrest
      exact ⟨q, _, k₂, .link hdot hup hlink htarget h₁, h₂, by omega⟩

theorem resolves_of_walkWith {onLink : Location → List String → Lookup} {b : Nat}
    {cur p : Location} {names : List String}
    (hlink : ∀ start todo, onLink start todo = .found p → ∃ k < b, Resolves d start todo p k)
    (h : walkWith d true onLink cur names = .found p) : ∃ k ≤ b, Resolves d cur names p k := by
  induction names generalizing cur with
  | nil =>
    cases h
    exact ⟨0, Nat.zero_le b, .nil _⟩
  | cons name rest ih =>
    rw [walkWith] at h
    split at h
    next hdot =>
      obtain ⟨k, hk, hrest⟩ := ih h
      exact ⟨k, hk, .dot hdot hrest⟩
    next hdot =>
    split at h
    next hup =>
      obtain ⟨k, hk, hrest⟩ := ih h
      exact ⟨k, hk, .up hdot hup hrest⟩
    next hup =>
    split at h
    · split at h <;> cases h
    next hdir =>
      obtain ⟨k, hk, hrest⟩ := ih h
      refine ⟨k, hk, .step hdot hup (fun target ht => ?_) hrest⟩
      rw [hdir] at ht
      cases ht
    next hfile =>
      split at h
      next hnil =>
        subst hnil
        cases h
        refine ⟨0, Nat.zero_le b, .step hdot hup (fun target ht => ?_) (.nil _)⟩
        rw [hfile] at ht
        cases ht
      · cases h
    next target hl =>
      rw [if_neg fun hand => Bool.noConfusion hand.2] at h
      obtain ⟨k, hk, hres⟩ := hlink _ _ h
      obtain ⟨q, k₁, k₂, htarget, hrest, rfl⟩ := hres.split
      exact ⟨k₁ + k₂ + 1, hk, .link hdot hup hl htarget hrest⟩

/-- What the system finds, the names lead to, within the links it follows. -/
theorem resolves_of_walk {b : Nat} {cur p : Location} {names : List String}
    (h : walk d true b cur names = .found p) : ∃ k ≤ b, Resolves d cur names p k := by
  induction b generalizing cur names with
  | zero => exact resolves_of_walkWith (fun _ _ hl => by cases hl) h
  | succ b ih =>
    refine resolves_of_walkWith (fun _ _ hl => ?_) h
    obtain ⟨k, hk, hres⟩ := ih hl
    exact ⟨k, Nat.lt_succ_of_le hk, hres⟩

/-! ## Resolving with the table -/

/-- The link at a location leads to `q`, through `k` more links. -/
def LinkLeads (d : Disk C) (l q : Location) (k : Nat) : Prop :=
  ∃ cur name target, l = cur ++ [name] ∧ d.get? l = some (.link target) ∧
    Resolves d (startOf cur (PosixPath.ofString target)) (PosixPath.ofString target).names q k

theorem LinkLeads.unique {l q q' : Location} {k k' : Nat} (h : LinkLeads d l q k)
    (h' : LinkLeads d l q' k') : q = q' ∧ k = k' := by
  obtain ⟨cur, name, target, hl, hlink, hres⟩ := h
  obtain ⟨cur', name', target', hl', hlink', hres'⟩ := h'
  obtain ⟨hcur, -⟩ := List.append_inj' (hl.symm.trans hl') rfl
  rw [hlink] at hlink'
  cases hlink'
  rw [← hcur] at hres'
  exact hres.unique hres'

/-- The known targets in a table are right. -/
def Seen.Right (d : Disk C) (seen : Seen) : Prop :=
  ∀ l q, seen.get? l = some (some q) → ∃ k, LinkLeads d l q k

/-- A link that is still being resolved takes at least `k` links. -/
def Seen.Busy (d : Disk C) (k : Nat) (seen : Seen) : Prop :=
  ∀ l, seen.get? l = some none → ∀ q k', LinkLeads d l q k' → k ≤ k'

/-- **Python's resolution arrives**: a link that is being resolved takes more links than what is
left to resolve, so it is not met again. -/
theorem joinRealpath_of_resolves {cur p : Location} {names : List String} {k : Nat}
    (h : Resolves d cur names p k) {fuel : Nat} {seen : Seen} (hfuel : k < fuel)
    (hright : seen.Right d) (hbusy : seen.Busy d k) :
    ∃ seen', joinRealpath d fuel cur names seen = some ⟨p, true, seen'⟩ ∧ seen'.Right d ∧
      ∀ l, seen'.get? l = some none ↔ seen.get? l = some none := by
  induction h generalizing fuel seen with
  | nil cur =>
    obtain ⟨n, rfl⟩ := Nat.exists_eq_succ_of_ne_zero (Nat.ne_of_gt hfuel)
    exact ⟨seen, rfl, hright, fun _ => Iff.rfl⟩
  | dot hdot _ ih =>
    obtain ⟨n, rfl⟩ := Nat.exists_eq_succ_of_ne_zero (Nat.ne_zero_of_lt hfuel)
    obtain ⟨seen', hjoin, hleft⟩ := ih hfuel hright hbusy
    refine ⟨seen', ?_, hleft⟩
    rw [joinRealpath, joinWith, if_pos hdot]
    exact hjoin
  | up hdot hup _ ih =>
    obtain ⟨n, rfl⟩ := Nat.exists_eq_succ_of_ne_zero (Nat.ne_zero_of_lt hfuel)
    obtain ⟨seen', hjoin, hleft⟩ := ih hfuel hright hbusy
    refine ⟨seen', ?_, hleft⟩
    rw [joinRealpath, joinWith, if_neg hdot, if_pos hup]
    exact hjoin
  | @step cur p name rest k hdot hup hplain _ ih =>
    obtain ⟨n, rfl⟩ := Nat.exists_eq_succ_of_ne_zero (Nat.ne_zero_of_lt hfuel)
    obtain ⟨seen', hjoin, hleft⟩ := ih hfuel hright hbusy
    refine ⟨seen', ?_, hleft⟩
    rw [joinRealpath, joinWith, if_neg hdot, if_neg hup]
    split
    next target htarget => exact absurd htarget (hplain target)
    next => exact hjoin
  | @link cur q p name target rest k₁ k₂ hdot hup hlink htarget hrest ih₁ ih₂ =>
    obtain ⟨n, rfl⟩ := Nat.exists_eq_succ_of_ne_zero (Nat.ne_zero_of_lt hfuel)
    have hleads : LinkLeads d (cur ++ [name]) q k₁ := ⟨cur, name, target, rfl, hlink, htarget⟩
    rw [joinRealpath, joinWith, if_neg hdot, if_neg hup, hlink]
    dsimp only
    cases hmet : seen.get? (cur ++ [name]) with
    | some known =>
      cases known with
      | some q' =>
        obtain ⟨k', hleads'⟩ := hright _ _ hmet
        obtain ⟨rfl, -⟩ := hleads.unique hleads'
        exact ih₂ (show k₂ < n + 1 by omega) hright fun l hl q k' hk => by
          have := hbusy l hl q k' hk
          omega
      | none =>
        have := hbusy _ hmet q k₁ hleads
        omega
    | none =>
      have hright₁ : Seen.Right d (seen.set (cur ++ [name]) none) := by
        intro l q' hl
        rw [Dict.get?_set] at hl
        split at hl
        · cases hl
        · exact hright l q' hl
      have hbusy₁ : Seen.Busy d k₁ (seen.set (cur ++ [name]) none) := by
        intro l hl q' k' hk
        rw [Dict.get?_set] at hl
        split at hl
        next heq =>
          subst heq
          exact Nat.le_of_eq (hleads.unique hk).2
        next =>
          have := hbusy l hl q' k' hk
          omega
      obtain ⟨seen₂, hjoin, hright₂, hsame₂⟩ := ih₁ (show k₁ < n by omega) hright₁ hbusy₁
      have hright₃ : Seen.Right d (seen₂.set (cur ++ [name]) (some q)) := by
        intro l q' hl
        rw [Dict.get?_set] at hl
        split at hl
        next heq =>
          subst heq
          cases hl
          exact ⟨k₁, hleads⟩
        next => exact hright₂ l q' hl
      have hsame₃ : ∀ l, (seen₂.set (cur ++ [name]) (some q)).get? l = some none ↔
          seen.get? l = some none := by
        intro l
        rw [Dict.get?_set]
        by_cases heq : l = cur ++ [name]
        · subst heq
          rw [if_pos rfl, hmet]
          exact ⟨nofun, nofun⟩
        · rw [if_neg heq, hsame₂ l, Dict.get?_set, if_neg heq]
      obtain ⟨seen', hjoin', hright', hsame'⟩ := ih₂ (show k₂ < n + 1 by omega) hright₃
        fun l hl q' k' hk => by
          have := hbusy l ((hsame₃ l).mp hl) q' k' hk
          omega
      rw [hjoin]
      exact ⟨seen', hjoin', hright', fun l => (hsame' l).trans (hsame₃ l)⟩

end Resolving

/-- Where the system finds a path, its names lead. -/
theorem resolves_of_lookup {m : Machine C} {p : PosixPath} {q : Location}
    (h : lookup m true p = .found q) :
    ∃ k ≤ maxLinks, Resolves m.disk (if p.absolute then [] else m.workdir) p.names q k := by
  unfold lookup at h
  split at h
  next habs =>
    rw [if_pos habs]
    exact resolves_of_walk h
  next habs =>
    rw [if_neg habs]
    split at h
    · cases h
    · exact resolves_of_walk h

/-- Names lead on from where others lead. -/
theorem Resolves.append {d : Disk C} {cur q p : Location} {xs ys : List String} {k₁ k₂ : Nat}
    (h : Resolves d cur xs q k₁) (h' : Resolves d q ys p k₂) :
    Resolves d cur (xs ++ ys) p (k₁ + k₂) := by
  induction h with
  | nil cur => rwa [Nat.zero_add]
  | dot hdot _ ih => exact .dot hdot (ih h')
  | up hdot hup _ ih => exact .up hdot hup (ih h')
  | step hdot hup hplain _ ih => exact .step hdot hup hplain (ih h')
  | link hdot hup hlink htarget _ _ ih =>
    have hon := Resolves.link hdot hup hlink htarget (ih h')
    rwa [← Nat.add_assoc, Nat.add_right_comm] at hon

/-- Where the names of a path lead through few enough links, `realpath` says it is. -/
theorem realpath_of_resolves {m : Machine C} {p : PosixPath} {q : Location} {k : Nat}
    (hk : k ≤ maxLinks)
    (hres : Resolves m.disk (if p.absolute then [] else m.workdir) p.names q k) :
    realpath m p = .ok q := by
  have hright : Seen.Right m.disk ∅ := nofun
  have hbusy : Seen.Busy m.disk k ∅ := nofun
  obtain ⟨seen, hjoin, -⟩ := joinRealpath_of_resolves hres
    (Nat.lt_of_le_of_lt hk (by decide : maxLinks < recursionLimit)) hright hbusy
  rw [realpath, hjoin]
  rfl

/-- **Where the system finds a path, `realpath` says it is.** -/
theorem realpath_of_lookup {m : Machine C} {p : PosixPath} {q : Location}
    (h : lookup m true p = .found q) : realpath m p = .ok q := by
  obtain ⟨k, hk, hres⟩ := resolves_of_lookup h
  exact realpath_of_resolves hk hres

/-- An entry of a directory that is no link is there under `realpath`, whether it exists or not. -/
theorem realpath_child {m : Machine C} {p : PosixPath} {q : Location} {name : String}
    (h : lookup m true p = .found q) (hname : isEntryName name = true)
    (hplain : ∀ target, m.disk.get? (q ++ [name]) ≠ some (.link target)) :
    realpath m (p.child name) = .ok (q ++ [name]) := by
  obtain ⟨k, hk, hres⟩ := resolves_of_lookup h
  have hlast : Resolves m.disk q [name] (q ++ [name]) 0 :=
    .step (isEntryName_ne_dot hname) (isEntryName_ne_dotdot hname) hplain (.nil _)
  exact realpath_of_resolves hk (hres.append hlast)

end ClawEngine.Posix
