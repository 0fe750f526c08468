import ClawEngine.Posix.Frame
import ClawEngine.Posix.Pathlib

/-!
# What a path depends on

Two machines may differ in places that a path never leads through. A path is **clear of** some
places when the system's answer to it is the same whatever is there; what it finds is then somewhere
else.

The rest is about one directory: the entries that stand in it, and the path of it that `pathlib`
prints.
-/

set_option autoImplicit false

namespace ClawEngine.Posix

open ClawEngine.Core ClawEngine.Core.Act

variable {C : Type} {H H' : Set Location} {m m' m'' : Machine C} {p : PosixPath}

/-! ## Machines that agree apart from some places -/

/-- What is neither at nor below a place of `H`. -/
def Off (H : Set Location) : Set Location := {q | ∀ h ∈ H, ¬ h <+: q}

/-- Every place of `H` is at or below one of `H'`. -/
def Covers (H' H : Set Location) : Prop := ∀ h ∈ H, ∃ h' ∈ H', h' <+: h

theorem Covers.off (hH : Covers H' H) : Off H' ⊆ Off H := by
  intro q hq h hh hpre
  obtain ⟨h', hh', hpre'⟩ := hH h hh
  exact hq h' hh' (hpre'.trans hpre)

theorem covers_of_subset (hH : H ⊆ H') : Covers H' H := fun h hh => ⟨h, hH hh, List.prefix_rfl⟩

theorem covers_below (T rest : Location) : Covers {T} {T ++ rest} := by
  rintro _ rfl
  exact ⟨T, rfl, List.prefix_append T rest⟩

/-- The machines agree off `H`. -/
structure SameOff (H : Set Location) (m m' : Machine C) : Prop where
  workdir : m'.workdir = m.workdir
  same : ∀ q ∈ Off H, m'.disk.get? q = m.disk.get? q

namespace SameOff

theorem refl (H : Set Location) (m : Machine C) : SameOff H m m := ⟨rfl, fun _ _ => rfl⟩

theorem symm (h : SameOff H m m') : SameOff H m' m :=
  ⟨h.workdir.symm, fun q hq => (h.same q hq).symm⟩

theorem trans (h : SameOff H m m') (h' : SameOff H m' m'') : SameOff H m m'' :=
  ⟨h'.workdir.trans h.workdir, fun q hq => (h'.same q hq).trans (h.same q hq)⟩

theorem mono (h : SameOff H m m') (hH : Covers H' H) : SameOff H' m m' :=
  ⟨h.workdir, fun q hq => h.same q (hH.off hq)⟩

theorem of_sameDisk (h : SameDisk m m') (H : Set Location) : SameOff H m m' :=
  ⟨h.2, fun q _ => by rw [h.1]⟩

theorem prune {h : Location} (hh : h ∈ H) (m : Machine C) :
    SameOff H m { m with disk := m.disk.prune h } :=
  ⟨rfl, fun _ hq => Disk.get?_prune_of_apart m.disk (hq h hh)⟩

end SameOff

/-- The system's answer to the path does not depend on what is at or below the places of `H`. -/
def ClearOf (H : Set Location) (m : Machine C) (p : PosixPath) : Prop :=
  ∀ m', SameOff H m m' → lookup m' true p = lookup m true p

/-- The entry that a path leads to. -/
def entryOf (m : Machine C) (p : PosixPath) : Option (Entry C) :=
  match lookup m true p with
  | .found q => m.disk.get? q
  | _ => none

/-- On a disk with nothing but its root, no path that ends with the name of an entry is found. -/
theorem walkWith_bare {d : Disk C} {follow : Bool} {onLink : Location → List String → Lookup}
    {cur : Location} {xs : List String} {name : String} (hbare : ∀ q, q ≠ [] → d.get? q = none)
    (hname : isEntryName name = true) (r : Location) :
    walkWith d follow onLink cur (xs ++ [name]) ≠ .found r := by
  induction xs generalizing cur with
  | nil =>
    rw [List.nil_append, walkWith, if_neg (isEntryName_ne_dot hname),
      if_neg (isEntryName_ne_dotdot hname), hbare _ (List.concat_ne_nil name cur)]
    intro hfound
    cases hfound
  | cons x xs ih =>
    rw [List.cons_append, walkWith]
    split
    · exact ih
    split
    · exact ih
    rw [hbare _ (List.concat_ne_nil x cur)]
    intro hfound
    dsimp only at hfound
    split at hfound <;> cases hfound

theorem lookup_bare {name : String} (hbare : ∀ q, q ≠ [] → m.disk.get? q = none)
    (hname : isEntryName name = true) (q : Location) : lookup m true (p.child name) ≠ .found q := by
  unfold lookup
  split
  · exact walkWith_bare hbare hname q
  · split
    · exact nofun
    · exact walkWith_bare hbare hname q

namespace ClearOf

theorem congr (h : ClearOf H m p) (hm : SameOff H m m') : ClearOf H m' p :=
  fun m'' hm' => (h m'' (hm.trans hm')).trans (h m' hm).symm

theorem exists_eq (h : ClearOf H m p) (hm : SameOff H m m') : exists? m' p = exists? m p := by
  rw [exists?, exists?, h m' hm]

/-- **What such a path finds is off the places.** -/
theorem found_mem {name : String} {q : Location} (h : ClearOf H m (p.child name))
    (hname : isEntryName name = true)
    (hfound : lookup m true (p.child name) = .found q) : q ∈ Off H := by
  intro place hplace hpre
  by_cases hne : place = []
  · subst hne
    have hoff : SameOff H m { m with disk := Disk.empty } :=
      ⟨rfl, fun r hr => absurd List.nil_prefix (hr [] hplace)⟩
    have hbare := h _ hoff
    exact lookup_bare (fun r hr => Disk.get?_empty hr) hname q (hbare.trans hfound)
  have hpruned := h _ (SameOff.prune hplace m)
  rw [hfound] at hpruned
  obtain ⟨e, he, -⟩ := lookup_entry hname hpruned
  rw [Disk.get?_prune _ hne, if_pos hpre] at he
  cases he

theorem entryOf_eq {name : String} (h : ClearOf H m (p.child name))
    (hname : isEntryName name = true) (hm : SameOff H m m') :
    entryOf m' (p.child name) = entryOf m (p.child name) := by
  unfold entryOf
  rw [h m' hm]
  cases hfound : lookup m true (p.child name) with
  | found q => exact hm.same q (h.found_mem hname hfound)
  | missing q => rfl
  | error e => rfl

end ClearOf

theorem isdir_eq_entryOf (m : Machine C) (p : PosixPath) :
    isdir m p = true ↔ entryOf m p = some .dir := by
  unfold isdir entryOf
  cases lookup m true p with
  | found q => exact Disk.isDirAt_iff
  | missing q => exact ⟨nofun, nofun⟩
  | error e => exact ⟨nofun, nofun⟩

/-- What a path finds as a file is an entry and no directory. -/
theorem isfile_eq_entryOf {name : String} (hname : isEntryName name = true) :
    isfile m (p.child name) = true ↔ ∃ content, entryOf m (p.child name) = some (.file content) := by
  unfold isfile entryOf
  cases hfound : lookup m true (p.child name) with
  | found q =>
    obtain ⟨e, he, hlink⟩ := lookup_entry hname hfound
    simp only [Disk.isDirAt, he]
    cases e with
    | dir =>
      refine iff_of_false Bool.false_ne_true ?_
      rintro ⟨content, h⟩
      cases h
    | file content => exact ⟨fun _ => ⟨content, rfl⟩, fun _ => rfl⟩
    | link target => cases hlink
  | missing q =>
    refine iff_of_false Bool.false_ne_true ?_
    rintro ⟨content, h⟩
    cases h
  | error e =>
    refine iff_of_false Bool.false_ne_true ?_
    rintro ⟨content, h⟩
    cases h

/-! ## The entries of a directory -/

/-- What goes on from `dest` is looked up from the directory at `R`. -/
structure GoesOn (m : Machine C) (dest : PosixPath) (R : Location) : Prop where
  dir : m.disk.get? R = some .dir
  walks : ∀ follow names, names ≠ [] →
    ∃ b, lookup m follow (dest.descend names) = walk m.disk follow b R names

theorem Leads.goesOn {dest : PosixPath} {R : Location} (h : Leads m dest R) : GoesOn m dest R := by
  refine ⟨h.dir, fun follow names hnames => ?_⟩
  have hdest := h.found
  show ∃ b, lookup m follow ⟨dest.absolute, dest.names ++ names⟩ = walk m.disk follow b R names
  unfold lookup at hdest ⊢
  dsimp only
  split at hdest
  next habs =>
    rw [if_pos habs]
    exact walk_append hnames h.dir hdest
  next habs =>
    split at hdest
    · cases hdest
    · rw [if_neg habs, if_neg (List.append_ne_nil_of_right_ne_nil dest.names hnames)]
      exact walk_append hnames h.dir hdest

/-- A path that is found is not the empty one. -/
theorem Leads.nonempty {dest : PosixPath} {R : Location} (h : Leads m dest R) :
    dest.absolute = true ∨ dest.names ≠ [] := by
  by_contra hnone
  rw [not_or, not_not] at hnone
  have hfound := h.found
  rw [lookup, if_neg hnone.1, if_pos hnone.2] at hfound
  cases hfound

/-- `pathlib` looks its empty path up as `.`. -/
theorem lookup_descend_sys {names : List String} (hnames : names ≠ []) (follow : Bool) :
    lookup m follow (p.sys.descend names) = lookup m follow (p.descend names) := by
  unfold PosixPath.sys
  split
  next hnil =>
    obtain ⟨habs, hnil⟩ := hnil
    have hwalk : ∀ b, walk m.disk follow b m.workdir ("." :: names) =
        walk m.disk follow b m.workdir names := by
      intro b
      cases b <;> rfl
    unfold lookup
    simp only [PosixPath.descend, habs, hnil, Bool.false_eq_true, if_false, List.nil_append,
      List.cons_append, reduceCtorEq, hnames]
    exact hwalk maxLinks
  · rfl

theorem GoesOn.of_sys {R : Location} (h : GoesOn m p.sys R) : GoesOn m p R := by
  refine ⟨h.dir, fun follow names hnames => ?_⟩
  rw [← lookup_descend_sys hnames]
  exact h.walks follow names hnames

theorem walk_single {d : Disk C} {b : Nat} {R : Location} {name : String}
    (hname : isEntryName name = true) :
    walk d false b R [name] = if d.get? (R ++ [name]) = none then .missing (R ++ [name])
      else .found (R ++ [name]) := by
  have hwith : ∀ onLink, walkWith d false onLink R [name] =
      if d.get? (R ++ [name]) = none then .missing (R ++ [name]) else .found (R ++ [name]) := by
    intro onLink
    rw [walkWith, if_neg (isEntryName_ne_dot hname), if_neg (isEntryName_ne_dotdot hname)]
    cases d.get? (R ++ [name]) with
    | none => rfl
    | some e => cases e <;> rfl
  cases b <;> exact hwith _

/-- **An entry of a directory**: its path is found where it stands, and missing else. -/
theorem GoesOn.lookup_child {dest : PosixPath} {R : Location} {name : String}
    (h : GoesOn m dest R) (hname : isEntryName name = true) :
    lookup m false (dest.child name) =
      if m.disk.get? (R ++ [name]) = none then .missing (R ++ [name])
      else .found (R ++ [name]) := by
  obtain ⟨b, hb⟩ := h.walks false [name] (List.cons_ne_nil _ _)
  exact hb.trans (walk_single hname)

/-- So it is where links are followed, if it is none. -/
theorem GoesOn.lookup_plain {dest : PosixPath} {R : Location} {name : String}
    (h : GoesOn m dest R) (hname : isEntryName name = true)
    (hplain : ∀ target, m.disk.get? (R ++ [name]) ≠ some (.link target)) :
    lookup m true (dest.child name) =
      if m.disk.get? (R ++ [name]) = none then .missing (R ++ [name])
      else .found (R ++ [name]) := by
  obtain ⟨b, hb⟩ := h.walks true [name] (List.cons_ne_nil _ _)
  refine hb.trans ?_
  cases hentry : m.disk.get? (R ++ [name]) with
  | none =>
    have hwith : ∀ onLink, walkWith m.disk true onLink R [name] = .missing (R ++ [name]) := by
      intro onLink
      rw [walkWith, if_neg (isEntryName_ne_dot hname), if_neg (isEntryName_ne_dotdot hname), hentry]
      rfl
    rw [if_pos rfl]
    cases b <;> exact hwith _
  | some e =>
    rw [if_neg (Option.some_ne_none e)]
    refine walk_located hentry ?_
    cases e with
    | dir => rfl
    | file content => rfl
    | link target => exact absurd hentry (hplain target)

/-- Along entry names without links, a path from the directory spells its location. -/
theorem GoesOn.spelled {dest : PosixPath} {R : Location} {names : List String} (h : GoesOn m dest R)
    (hnil : names ≠ []) (hnames : ∀ name ∈ names, isEntryName name = true)
    (hlinks : ∀ q, q <+: names → ∀ target, m.disk.get? (R ++ q) ≠ some (.link target))
    (follow : Bool) : Spelled m.disk R names (lookup m follow (dest.descend names)) := by
  obtain ⟨b, hb⟩ := h.walks follow names hnil
  rw [hb]
  exact walk_spelled h.dir hnames hlinks

/-- An entry that is no link is found. -/
theorem GoesOn.located {dest : PosixPath} {R : Location} {names : List String} {e : Entry C}
    (h : GoesOn m dest R) (hnil : names ≠ []) (he : m.disk.get? (R ++ names) = some e)
    (hlink : e.isLink = false) (follow : Bool) :
    lookup m follow (dest.descend names) = .found (R ++ names) := by
  obtain ⟨b, hb⟩ := h.walks follow names hnil
  rw [hb]
  exact walk_located he hlink

/-- Where nothing is and no link is on the way, nothing is found. -/
theorem GoesOn.not_found {dest : PosixPath} {R : Location} {names : List String}
    (h : GoesOn m dest R) (hnil : names ≠ []) (hnames : ∀ name ∈ names, isEntryName name = true)
    (hlinks : ∀ q, q <+: names → ∀ target, m.disk.get? (R ++ q) ≠ some (.link target))
    (hnone : m.disk.get? (R ++ names) = none) (q : Location) :
    lookup m true (dest.descend names) ≠ .found q := by
  intro hfound
  have hspelled := h.spelled hnil hnames hlinks true
  rw [hfound] at hspelled
  obtain ⟨e, he⟩ := hspelled.of_found
  rw [hnone] at he
  cases he

/-- So a directory in it goes on from there. -/
theorem GoesOn.child {dest : PosixPath} {R : Location} {name : String} (h : GoesOn m dest R)
    (hdir : m.disk.get? (R ++ [name]) = some .dir) : GoesOn m (dest.child name) (R ++ [name]) :=
  Leads.goesOn ⟨hdir, h.located (List.cons_ne_nil _ _) hdir rfl true⟩

/-! ## An empty directory -/

theorem walkWith_empty {d d' : Disk C} {D : Location} {onLink onLink' : Location → List String → Lookup}
    {cur : Location} {names : List String}
    (hsame : ∀ q, ¬ (D <+: q ∧ q ≠ D) → d'.get? q = d.get? q)
    (hempty : ∀ q, D <+: q → q ≠ D → d.get? q = none)
    (hlink : ∀ start todo, onLink start todo = .found D → onLink' start todo = .found D)
    (h : walkWith d true onLink cur names = .found D) :
    walkWith d' true onLink' cur names = .found D := by
  induction names generalizing cur with
  | nil => exact h
  | cons name rest ih =>
    rw [walkWith] at h ⊢
    split
    next hdot =>
      rw [if_pos hdot] at h
      exact ih h
    next hdot =>
    rw [if_neg hdot] at h
    split
    next hup =>
      rw [if_pos hup] at h
      exact ih h
    next hup =>
    rw [if_neg hup] at h
    by_cases hbelow : D <+: cur ++ [name] ∧ cur ++ [name] ≠ D
    · -- below `D` nothing is, and the walk would have ended there
      rw [hempty _ hbelow.1 hbelow.2] at h
      dsimp only at h
      split at h <;> cases h
    · rw [hsame _ hbelow]
      split
      next hnone =>
        rw [hnone] at h
        exact h
      next hdir =>
        rw [hdir] at h
        exact ih h
      next hfile =>
        rw [hfile] at h
        exact h
      next target hl =>
        rw [hl] at h
        dsimp only at h
        rw [if_neg fun hand => Bool.noConfusion hand.2] at h ⊢
        exact hlink _ _ h

/-- **A path that leads to an empty directory stands at it**: it leads through nothing in it. -/
theorem standsAt_of_empty {dest : PosixPath} {D : Location} (h : Leads m dest D)
    (hempty : m.disk.children D = []) : StandsAt m dest D := by
  have hbelow : ∀ q, D <+: q → q ≠ D → m.disk.get? q = none := fun q hq hne =>
    Disk.get?_below_empty hempty hq hne
  have hwalk : ∀ m', SameOutside D m m' → ∀ b cur names, walk m.disk true b cur names = .found D →
      walk m'.disk true b cur names = .found D := by
    intro m' hm' b
    induction b with
    | zero =>
      intro cur names hw
      exact walkWith_empty hm'.2 hbelow (fun _ _ hl => by cases hl) hw
    | succ b ih =>
      intro cur names hw
      exact walkWith_empty hm'.2 hbelow (fun _ _ hl => ih _ _ hl) hw
  refine ⟨h.dir, fun m' hm' => ?_⟩
  have hfound := h.found
  unfold lookup at hfound ⊢
  split at hfound
  next habs =>
    rw [if_pos habs]
    exact hwalk m' hm' _ _ _ hfound
  next habs =>
    rw [if_neg habs]
    split at hfound
    · cases hfound
    next hnil =>
      rw [if_neg hnil, hm'.1]
      exact hwalk m' hm' _ _ _ hfound

/-! ## Calls that return -/

/-- The machine after one operation that met no fault. -/
def Machine.next (m : Machine C) : Machine C := { m with tick := m.tick + 1 }

theorem Machine.next_sameDisk (m : Machine C) : SameDisk m m.next := ⟨rfl, rfl⟩

theorem Machine.lookup_next (m : Machine C) (follow : Bool) (p : PosixPath) :
    lookup m.next follow p = lookup m follow p := rfl

/-- What is there is not made, and the error is not that a directory is missing. -/
theorem mkdir_found {q : Location} (h : lookup m false p = .found q) :
    ∃ e, mkdir p m = (.error e, m.next) ∧ e ≠ .fileNotFound := by
  rcases checkFault_cases m with ⟨n, fault, -, hcheck⟩ | hcheck
  · exact ⟨_, bind_of_error hcheck, nofun⟩
  · refine ⟨.fileExists, ?_, nofun⟩
    have hfound : lookup { m with tick := m.tick + 1 } false p = .found q := h
    refine (bind_of_ok hcheck).trans ?_
    simp only [hfound]
    rfl

/-- `mkdir` that returns has put a directory where nothing was. -/
theorem mkdir_eq_ok (h : mkdir p m = (.ok (), m')) :
    ∃ q, lookup m false p = .missing q ∧ m' = { m.next with disk := m.disk.put q .dir } := by
  obtain ⟨_, m₁, hcheck, hmk⟩ := bind_eq_ok.mp h
  rcases checkFault_cases m with ⟨n, fault, -, hfault⟩ | hnone
  · rw [hfault] at hcheck
    cases hcheck
  · rw [hnone] at hcheck
    cases hcheck
    split at hmk
    · cases hmk
    next q hq =>
      cases hmk
      exact ⟨q, hq, rfl⟩
    · cases hmk

/-- `mkdir` that raises has changed nothing. -/
theorem mkdir_eq_error {e : OsError} (h : mkdir p m = (.error e, m')) : m' = m.next := by
  rcases checkFault_cases m with ⟨n, fault, -, hfault⟩ | hnone
  · have hraised := (bind_of_error hfault).symm.trans h
    cases hraised
    rfl
  · have hmk := (bind_of_ok hnone).symm.trans h
    split at hmk
    · cases hmk
      rfl
    · cases hmk
    · cases hmk
      rfl

/-- `mkdir(parents=True, exist_ok=True)` of a directory that is there changes nothing. -/
theorem mkdirParents_leads {R : Location} (h : Leads m p.sys R) (fuel : Nat) :
    SameDisk m (mkdirParents fuel p m).2 := by
  cases fuel with
  | zero => exact ⟨rfl, rfl⟩
  | succ fuel =>
    obtain ⟨q, hq⟩ := lookup_nofollow h.found
    obtain ⟨e, he, hne⟩ := mkdir_found hq
    have hattempt : ((mkdir p.sys).attempt : Fs C (Except OsError Unit)) m =
        (.ok (.error e), m.next) := by
      rw [attempt, he]
    have hpass : ∀ e : OsError, Keeps (SameDisk m) (do
        if ← Act.read (isdir · p.sys) then pure () else Act.raise (.os e) : Fs C Unit) := by
      intro e
      refine (keeps_read _).bind fun isDir => ?_
      split
      · exact keeps_pure _
      · exact keeps_raise _
    rw [mkdirParents, bind_of_ok hattempt]
    cases e with
    | fileNotFound => exact absurd rfl hne
    | _ => exact hpass _ m.next m.next_sameDisk

/-- `mkdir(exist_ok=True)` that returns, of an entry where nothing or a directory is. -/
theorem mkdirHere_eq_ok {dest : PosixPath} {R : Location} {name : String} (hd : GoesOn m dest R)
    (hname : isEntryName name = true)
    (hentry : m.disk.get? (R ++ [name]) = none ∨ m.disk.get? (R ++ [name]) = some .dir)
    (h : mkdirHere (dest.child name) m = (.ok (), m')) :
    m'.workdir = m.workdir ∧ ∀ q, m'.disk.get? q =
      if q = R ++ [name] then some .dir else m.disk.get? q := by
  have hsys : (dest.child name).sys = dest.child name := by
    unfold PosixPath.sys
    rw [if_neg]
    exact fun hnil => List.concat_ne_nil name dest.names hnil.2
  have hlook := hd.lookup_child hname
  obtain ⟨answer, m₁, hattempt, hrest⟩ := bind_eq_ok.mp h
  rw [hsys] at hattempt hrest
  cases hmk : mkdir (dest.child name) m with
  | mk out m₂ =>
  rw [attempt, hmk] at hattempt
  cases hattempt
  cases out with
  | ok u =>
    cases hrest
    obtain ⟨q, hq, rfl⟩ := mkdir_eq_ok hmk
    have hnone : m.disk.get? (R ++ [name]) = none := by
      by_contra hsome
      rw [hlook, if_neg hsome] at hq
      cases hq
    rw [hlook, if_pos hnone] at hq
    cases hq
    exact ⟨rfl, fun q => Disk.get?_put (Disk.canPut_of_missing hname hd.dir hnone) _ q⟩
  | error e =>
    obtain rfl := mkdir_eq_error hmk
    have hisdir : isdir m (dest.child name) = true ∧ m' = m.next := by
      have hread : (do
          if ← Act.read (isdir · (dest.child name)) then pure ()
          else Act.raise (.os e) : Fs C Unit) m.next = (.ok (), m') := by
        cases e with
        | fileNotFound => cases hrest
        | _ => exact hrest
      obtain ⟨isDir, m₁, hread, hrest⟩ := bind_eq_ok.mp hread
      cases hread
      split at hrest
      next hisDir =>
        cases hrest
        exact ⟨hisDir, rfl⟩
      · cases hrest
    obtain ⟨hisdir, rfl⟩ := hisdir
    refine ⟨rfl, fun q => ?_⟩
    split
    next heq =>
      rw [heq]
      refine hentry.resolve_left fun hnone => ?_
      obtain ⟨q', hfound, -⟩ := isdir_iff.mp hisdir
      refine hd.not_found (List.cons_ne_nil name []) (fun n hn => ?_) (fun r hr target => ?_)
        hnone q' hfound
      · rwa [List.mem_singleton.mp hn]
      · rcases List.prefix_cons_iff.mp hr with rfl | ⟨r', rfl, hr'⟩
        · rw [List.append_nil, hd.dir]
          intro hlink
          cases hlink
        · rw [List.prefix_nil.mp hr', hnone]
          intro hlink
          cases hlink
    · rfl

/-- `unlink` that returns, of an entry that is a link. -/
theorem unlink_link {dest : PosixPath} {R : Location} {name target : String} (hd : GoesOn m dest R)
    (hname : isEntryName name = true)
    (hlink : m.disk.get? (R ++ [name]) = some (.link target))
    (h : unlink (dest.child name) m = (.ok (), m')) :
    m' = { m.next with disk := m.disk.prune (R ++ [name]) } := by
  have hlook := hd.lookup_child hname
  rw [if_neg (by rw [hlink]; exact nofun)] at hlook
  obtain ⟨q, m₁, hfound, h⟩ := bind_eq_ok.mp h
  obtain ⟨hq, rfl⟩ := readE_eq_ok.mp hfound
  rw [hlook] at hq
  cases hq
  obtain ⟨_, m₁, hcheck, hun⟩ := bind_eq_ok.mp h
  rcases checkFault_cases m with ⟨n, fault, -, hfault⟩ | hnone
  · rw [hfault] at hcheck
    cases hcheck
  · rw [hnone] at hcheck
    cases hcheck
    dsimp only at hun
    rw [hlink] at hun
    cases hun
    rfl

/-- `symlink_to` that returns has put a link where nothing was. -/
theorem symlinkTo_eq_ok {target : String} (h : symlinkTo p target m = (.ok (), m')) :
    ∃ q, lookup m false p = .missing q ∧
      m' = { m.next with disk := m.disk.put q (.link target) } := by
  obtain ⟨_, m₁, hcheck, hmk⟩ := bind_eq_ok.mp h
  rcases checkFault_cases m with ⟨n, fault, -, hfault⟩ | hnone
  · rw [hfault] at hcheck
    cases hcheck
  · rw [hnone] at hcheck
    cases hcheck
    split at hmk
    · cases hmk
    next q hq =>
      cases hmk
      exact ⟨q, hq, rfl⟩
    · cases hmk

end ClawEngine.Posix
