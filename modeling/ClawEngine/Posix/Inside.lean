import ClawEngine.Posix.Realpath
import ClawEngine.Posix.Zone

/-!
# Directories that no link leads out of

Where every link below a directory leads to it or below it, so does every path that goes on from the
directory by the names of entries: whatever is made, written or removed under such a path is below
the directory. What `realpath` says of one is below it by its text alone, also where it met a loop;
but the text it then gives may have links in it, so that too is a path that goes on from there.
-/

set_option autoImplicit false

namespace ClawEngine.Posix

open ClawEngine.Core

variable {C : Type}

/-! ## Walks and names -/

section Walks

variable {d : Disk C} {follow : Bool} {cur q : Location} {names : List String}

/-- What a walk finds that is no link, or finds missing, its names lead to. -/
theorem resolves_of_walkWith_end {onLink : Location → List String → Lookup}
    (hplain : ∀ target, d.get? q ≠ some (.link target))
    (hlink : ∀ start todo, onLink start todo = .found q ∨ onLink start todo = .missing q →
      ∃ k, Resolves d start todo q k)
    (h : walkWith d follow onLink cur names = .found q ∨
      walkWith d follow onLink cur names = .missing q) : ∃ k, Resolves d cur names q k := by
  induction names generalizing cur with
  | nil =>
    simp only [walkWith, Lookup.found.injEq, reduceCtorEq, or_false] at h
    exact ⟨0, h ▸ .nil cur⟩
  | cons name rest ih =>
    simp only [walkWith] at h
    split at h
    next hdot =>
      obtain ⟨k, hk⟩ := ih h
      exact ⟨k, .dot hdot hk⟩
    next hdot =>
    split at h
    next hup =>
      obtain ⟨k, hk⟩ := ih h
      exact ⟨k, .up hdot hup hk⟩
    next hup =>
    -- the last name, where it is that of `q`
    have hlast : rest = [] → cur ++ [name] = q → ∃ k, Resolves d cur (name :: rest) q k := by
      rintro rfl rfl
      exact ⟨0, .step hdot hup hplain (.nil _)⟩
    split at h
    · split at h
      next hrest => exact hlast hrest (by simpa using h)
      · simp only [reduceCtorEq, or_self] at h
    next hdir =>
      obtain ⟨k, hk⟩ := ih h
      refine ⟨k, .step hdot hup (fun target ht => ?_) hk⟩
      rw [hdir] at ht
      cases ht
    · split at h
      next hrest => exact hlast hrest (by simpa using h)
      · simp only [reduceCtorEq, or_self] at h
    next target hl =>
      split at h
      next hand => exact hlast hand.1 (by simpa using h)
      next hgo =>
        obtain ⟨k, hk⟩ := hlink _ _ h
        obtain ⟨q', k₁, k₂, htarget, hrest, rfl⟩ := hk.split
        exact ⟨_, .link hdot hup hl htarget hrest⟩

theorem resolves_of_walk_end {b : Nat} (hplain : ∀ target, d.get? q ≠ some (.link target))
    (h : walk d follow b cur names = .found q ∨ walk d follow b cur names = .missing q) :
    ∃ k, Resolves d cur names q k := by
  induction b generalizing cur names with
  | zero =>
    exact resolves_of_walkWith_end hplain (fun _ _ hl => by rcases hl with hl | hl <;> cases hl) h
  | succ b ih => exact resolves_of_walkWith_end hplain (fun _ _ hl => ih hl) h

theorem resolves_of_lookup_end {m : Machine C} {p : PosixPath}
    (hplain : ∀ target, m.disk.get? q ≠ some (.link target))
    (h : lookup m follow p = .found q ∨ lookup m follow p = .missing q) :
    ∃ k, Resolves m.disk (if p.absolute then [] else m.workdir) p.names q k := by
  simp only [lookup] at h
  split at h
  next habs =>
    rw [if_pos habs]
    exact resolves_of_walk_end hplain h
  next habs =>
    rw [if_neg habs]
    split at h
    · rcases h with h | h <;> cases h
    · exact resolves_of_walk_end hplain h

/-- **A path that goes on from a directory** is resolved from there. -/
theorem Leads.resolves {m : Machine C} {dest : PosixPath} {R : Location} (h : Leads m dest R)
    (hplain : ∀ target, m.disk.get? q ≠ some (.link target))
    (hlook : lookup m follow (dest.descend names) = .found q ∨
      lookup m follow (dest.descend names) = .missing q) :
    ∃ k, Resolves m.disk R names q k := by
  obtain ⟨k, hk⟩ := resolves_of_lookup_end hplain hlook
  obtain ⟨R', k₁, k₂, hdest, hrest, -⟩ := Resolves.split hk
  obtain ⟨k', -, hroot⟩ := resolves_of_lookup h.found
  obtain ⟨rfl, -⟩ := hroot.unique hdest
  exact ⟨k₂, hrest⟩

end Walks

/-! ## Links that lead inside -/

/-- Every link below `R` leads to it or below it, whether or not something is there. -/
def LeadsIn (d : Disk C) (R : Location) : Prop :=
  ∀ cur name target q k, R <+: cur → d.get? (cur ++ [name]) = some (.link target) →
    Resolves d (startOf cur (PosixPath.ofString target)) (PosixPath.ofString target).names q k →
    R <+: q

/-- From `d` to `d'` no link was added, and none is gone but below `R`. -/
structure LinksLeft (R : Location) (d d' : Disk C) : Prop where
  links : ∀ p target, d'.get? p = some (.link target) → d.get? p = some (.link target)
  outside : ∀ p ∈ Outside R, ∀ target, d.get? p = some (.link target) →
    d'.get? p = some (.link target)

/-- No link below `R` leads out, whatever links below `R` are removed. -/
def KeepsIn (d : Disk C) (R : Location) : Prop := ∀ d', LinksLeft R d d' → LeadsIn d' R

section Inside

variable {m m' : Machine C} {d d' d'' : Disk C} {R cur q : Location} {names : List String} {k : Nat}

theorem LinksLeft.trans (h : LinksLeft R d d') (h' : LinksLeft R d' d'') : LinksLeft R d d'' :=
  ⟨fun p target ht => h.links p target (h'.links p target ht),
    fun p hp target ht => h'.outside p hp target (h.outside p hp target ht)⟩

theorem Spares.linksLeft (h : Spares (Outside R) m m') : LinksLeft R m.disk m'.disk :=
  ⟨h.links, fun p hp _ ht => (h.same p hp).trans ht⟩

theorem Expands.linksLeft {Z : Set Location} (h : Expands Z m m') : LinksLeft R m.disk m'.disk :=
  ⟨h.links, fun _ _ _ ht => h.kept.link ht⟩

theorem KeepsIn.mono (h : KeepsIn d R) (hd : LinksLeft R d d') : KeepsIn d' R :=
  fun d'' hd' => h d'' (hd.trans hd')

/-- **Names without `..` lead nowhere else.** -/
theorem LeadsIn.resolves (h : LeadsIn d R) (hcur : R <+: cur) (hnames : ".." ∉ names)
    (hres : Resolves d cur names q k) : R <+: q := by
  induction hres with
  | nil cur => exact hcur
  | dot _ _ ih => exact ih hcur fun hup => hnames (List.mem_cons_of_mem _ hup)
  | up _ hup _ _ => exact absurd (hup ▸ List.mem_cons_self) hnames
  | step _ _ _ _ ih =>
    exact ih (hcur.trans (List.prefix_append _ _)) fun hup => hnames (List.mem_cons_of_mem _ hup)
  | link _ _ hlink htarget _ _ ih =>
    exact ih (h _ _ _ _ _ hcur hlink htarget) fun hup => hnames (List.mem_cons_of_mem _ hup)

theorem not_mem_of_entryNames (h : ∀ name ∈ names, isEntryName name = true) : ".." ∉ names :=
  fun hup => absurd (h _ hup) (by decide)

/-- **Whatever is put under a path that goes on from `R` is below `R`.** -/
theorem putsAt_inside {dest p : PosixPath} {s : String} (hroot : Leads m dest R)
    (hin : LeadsIn m.disk R) (hs : isEntryName s = true) (hp : p ∈ Through dest s)
    (hputs : PutsAt m p q) : q ∉ Outside R := by
  obtain ⟨names, hnames, rfl⟩ := hp
  have hentries : ∀ name ∈ s :: names, isEntryName name = true :=
    List.forall_mem_cons.mpr ⟨hs, hnames⟩
  have hlook : ∃ follow, (∀ target, m.disk.get? q ≠ some (.link target)) ∧
      m.disk.get? q ≠ some .dir ∧ (lookup m follow (dest.descend (s :: names)) = .found q ∨
        lookup m follow (dest.descend (s :: names)) = .missing q) := by
    rcases hputs with hmissing | hopens
    · refine ⟨false, ?_, ?_, .inr hmissing⟩ <;>
      · rw [lookup_missing hmissing]
        exact nofun
    · refine ⟨true, opensAt_plain hs ⟨names, hnames, rfl⟩ hopens, fun hdir => ?_, ?_⟩
      · rcases hopens with hmissing | ⟨-, hnodir⟩
        · rw [lookup_missing hmissing] at hdir
          cases hdir
        · rw [Disk.isDirAt_iff.mpr hdir] at hnodir
          cases hnodir
      · exact hopens.symm.imp_left And.left
  obtain ⟨follow, hplain, hnodir, hlook⟩ := hlook
  obtain ⟨k, hk⟩ := hroot.resolves hplain hlook
  refine not_not_intro ⟨hin.resolves List.prefix_rfl (not_mem_of_entryNames hentries) hk, ?_⟩
  rintro rfl
  exact hnodir hroot.dir

/-- Nothing is put outside under such a path. -/
theorem KeepsIn.safe {dest : PosixPath} {s : String} (hroot : Leads m dest R)
    (hin : KeepsIn m.disk R) (hs : isEntryName s = true) :
    Safe (Expands (Outside R) m) (Outside R) dest s := fun _ hm _ hp _ hputs =>
  putsAt_inside (hm.leads hroot) (hin _ hm.linksLeft) hs hp hputs

end Inside

/-! ## What `realpath` says -/

/-- A location without `.` and `..`. -/
def Undotted (q : Location) : Prop := ∀ name ∈ q, name ≠ "." ∧ name ≠ ".."

theorem undotted_nil : Undotted [] := fun _ hname => absurd hname List.not_mem_nil

theorem Undotted.dropLast {q : Location} (h : Undotted q) : Undotted q.dropLast :=
  fun name hname => h name (List.dropLast_subset _ hname)

theorem Undotted.snoc {q : Location} {name : String} (h : Undotted q) (hdot : name ≠ ".")
    (hup : name ≠ "..") : Undotted (q ++ [name]) := by
  intro n hn
  rcases List.mem_append.mp hn with hn | hn
  · exact h n hn
  · rw [List.mem_singleton.mp hn]
    exact ⟨hdot, hup⟩

theorem Undotted.startOf {cur : Location} (h : Undotted cur) (target : PosixPath) :
    Undotted (startOf cur target) := by
  unfold Posix.startOf
  split
  · exact undotted_nil
  · exact h

theorem undotted_of_some {d : Disk C} {q : Location} {e : Entry C} (h : d.get? q = some e) :
    Undotted q := fun name hname =>
  have hentry := Disk.names_of_some h name hname
  ⟨isEntryName_ne_dot hentry, isEntryName_ne_dotdot hentry⟩

/-- So are the known places of links. -/
def Seen.Undotted (seen : Seen) : Prop := ∀ l q, seen.get? l = some (some q) → Posix.Undotted q

theorem Seen.undotted_empty : Seen.Undotted ∅ := fun _ _ hl => nomatch hl

theorem Seen.Undotted.set {seen : Seen} (h : seen.Undotted) {l : Location}
    {known : Option Location} (hknown : ∀ q, known = some q → Posix.Undotted q) :
    Seen.Undotted (seen.set l known) := by
  intro l' q hl'
  rw [Dict.get?_set] at hl'
  split at hl'
  · exact hknown q (Option.some.inj hl')
  · exact h l' q hl'

theorem joinWith_undotted {d : Disk C} {onLink : Location → PosixPath → Seen → Option Joined}
    (hlink : ∀ path target seen q seen', Undotted path → seen.Undotted →
      onLink path target seen = some ⟨q, true, seen'⟩ → Undotted q ∧ seen'.Undotted)
    {path q : Location} {names : List String} {seen seen' : Seen} (hpath : Undotted path)
    (hseen : seen.Undotted) (h : joinWith d onLink path names seen = some ⟨q, true, seen'⟩) :
    Undotted q ∧ seen'.Undotted := by
  induction names generalizing path seen with
  | nil =>
    cases h
    exact ⟨hpath, hseen⟩
  | cons name rest ih =>
    rw [joinWith] at h
    split at h
    · exact ih hpath hseen h
    next hdot =>
    split at h
    · exact ih hpath.dropLast hseen h
    next hup =>
    split at h
    · split at h
      next known hknown => exact ih (hseen _ known hknown) hseen h
      · cases h
      next =>
        split at h
        · cases h
        · cases h
        next q' seen₁ honLink =>
          obtain ⟨hq', hseen₁⟩ := hlink _ _ _ _ _ hpath (hseen.set fun _ h => by cases h) honLink
          exact ih hq' (hseen₁.set fun _ h => Option.some.inj h ▸ hq') h
    · exact ih (hpath.snoc hdot hup) hseen h

theorem joinRealpath_undotted {d : Disk C} {fuel : Nat} {path q : Location} {names : List String}
    {seen seen' : Seen} (hpath : Undotted path) (hseen : seen.Undotted)
    (h : joinRealpath d fuel path names seen = some ⟨q, true, seen'⟩) :
    Undotted q ∧ seen'.Undotted := by
  induction fuel generalizing path q names seen seen' with
  | zero => cases h
  | succ fuel ih =>
    refine joinWith_undotted (fun path target seen q seen' hpath hseen h => ?_) hpath hseen h
    exact ih (hpath.startOf target) hseen h

theorem normalize_undotted (names : List String) : Undotted (normalize names) := by
  have hfold : ∀ (names : List String) (p : Location), Undotted p →
      Undotted (names.foldl (fun p name =>
        if name = "." then p else if name = ".." then p.dropLast else p ++ [name]) p) := by
    intro names
    induction names with
    | nil => exact fun p hp => hp
    | cons name rest ih =>
      intro p hp
      refine ih _ ?_
      dsimp only
      split
      · exact hp
      next hdot =>
      split
      · exact hp.dropLast
      next hup => exact hp.snoc hdot hup
  exact hfold names [] undotted_nil

/-- Names that lead somewhere, whatever comes after them and on whatever disk they are resolved: a
name of an entry comes only after the dots of the place they start from are gone. -/
theorem joinWith_undotted_of_found {d d' : Disk C} {walkLink : Location → List String → Lookup}
    {onLink : Location → PosixPath → Seen → Option Joined}
    (hlink : ∀ path target seen q seen', Undotted path → seen.Undotted →
      onLink path target seen = some ⟨q, true, seen'⟩ → Undotted q ∧ seen'.Undotted)
    {cur R q : Location} {names more : List String} {seen seen' : Seen} (hR : Undotted R)
    (hseen : seen.Undotted) (hfound : walkWith d true walkLink cur names = .found R)
    (h : joinWith d' onLink cur (names ++ more) seen = some ⟨q, true, seen'⟩) : Undotted q := by
  induction names generalizing cur seen with
  | nil =>
    cases hfound
    exact (joinWith_undotted hlink hR hseen h).1
  | cons name rest ih =>
    by_cases hthere : ∃ e, d.get? (cur ++ [name]) = some e
    · obtain ⟨e, he⟩ := hthere
      exact (joinWith_undotted hlink (undotted_of_some (Disk.parent_dir he).1) hseen h).1
    · have hnone : d.get? (cur ++ [name]) = none :=
        Option.not_isSome_iff_eq_none.mp fun hsome =>
          hthere (Option.isSome_iff_exists.mp hsome)
      rw [walkWith] at hfound
      rw [List.cons_append, joinWith] at h
      split at hfound
      next hdot =>
        rw [if_pos hdot] at h
        exact ih hseen hfound h
      next hdot =>
      split at hfound
      next hup =>
        rw [if_neg hdot, if_pos hup] at h
        exact ih hseen hfound h
      next hup =>
        rw [hnone] at hfound
        dsimp only at hfound
        split at hfound <;> cases hfound

/-- **What `realpath` says of a path below a directory** has no `.` and `..` in it, whatever has
changed since the path led there. -/
theorem realpath_undotted {m m' : Machine C} {dest : PosixPath} {R T : Location}
    {names : List String} (hroot : Leads m dest R) (hwork : m'.workdir = m.workdir)
    (hreal : realpath m' (dest.descend names) = .ok T) : Undotted T := by
  have hlink : ∀ fuel (path : Location) (target : PosixPath) seen q seen', Undotted path →
      Seen.Undotted seen → joinRealpath m'.disk fuel (startOf path target) target.names seen =
        some ⟨q, true, seen'⟩ → Undotted q ∧ seen'.Undotted :=
    fun fuel _ target _ _ _ hpath hseen => joinRealpath_undotted (hpath.startOf target) hseen
  have hfound := hroot.found
  unfold lookup at hfound
  unfold realpath at hreal
  split at hreal
  · cases hreal
  next joined hjoined =>
    obtain ⟨path, ok, seen⟩ := joined
    cases hreal
    cases ok with
    | false => exact normalize_undotted path
    | true =>
      split at hfound
      next habs =>
        rw [show (dest.descend names).absolute = true from habs, if_pos rfl] at hjoined
        exact (joinRealpath_undotted undotted_nil Seen.undotted_empty hjoined).1
      next habs =>
        rw [show (dest.descend names).absolute = dest.absolute from rfl, if_neg habs, hwork]
          at hjoined
        split at hfound
        · cases hfound
        · exact joinWith_undotted_of_found (hlink _) (undotted_of_some hroot.dir)
            Seen.undotted_empty hfound hjoined

/-! ## The last name -/

section Last

variable {d : Disk C} {cur q : Location} {names : List String} {last : String}

/-- What a walk that does not follow the last link finds has the last name. -/
theorem walkWith_last {onLink : Location → List String → Lookup} (hdot : last ≠ ".")
    (hup : last ≠ "..") (hlink : ∀ start todo, onLink start (todo ++ [last]) = .found q →
      ∃ p k, q = p ++ [last] ∧ Resolves d start todo p k)
    (h : walkWith d false onLink cur (names ++ [last]) = .found q) :
    ∃ p k, q = p ++ [last] ∧ Resolves d cur names p k := by
  induction names generalizing cur with
  | nil =>
    refine ⟨cur, 0, ?_, .nil cur⟩
    simp only [List.nil_append, walkWith, if_neg hdot, if_neg hup, if_true, and_self] at h
    split at h
    · cases h
    · cases h
      rfl
    · cases h
      rfl
    · cases h
      rfl
  | cons name rest ih =>
    have hrest : rest ++ [last] ≠ [] := List.concat_ne_nil last rest
    rw [List.cons_append, walkWith] at h
    split at h
    next hname =>
      obtain ⟨p, k, hq, hk⟩ := ih h
      exact ⟨p, k, hq, .dot hname hk⟩
    next hname =>
    split at h
    next hname' =>
      obtain ⟨p, k, hq, hk⟩ := ih h
      exact ⟨p, k, hq, .up hname hname' hk⟩
    next hname' =>
    split at h
    · cases h
    next hdir =>
      obtain ⟨p, k, hq, hk⟩ := ih h
      refine ⟨p, k, hq, .step hname hname' (fun target ht => ?_) hk⟩
      rw [hdir] at ht
      cases ht
    · cases h
    next target hl =>
      rw [if_neg fun hand => hrest hand.1] at h
      dsimp only at h
      rw [← List.append_assoc] at h
      obtain ⟨p, k, hq, hk⟩ := hlink _ _ h
      obtain ⟨q', k₁, k₂, htarget, hk', rfl⟩ := hk.split
      exact ⟨p, _, hq, .link hname hname' hl htarget hk'⟩

theorem walk_last {b : Nat} (hdot : last ≠ ".") (hup : last ≠ "..")
    (h : walk d false b cur (names ++ [last]) = .found q) :
    ∃ p k, q = p ++ [last] ∧ Resolves d cur names p k := by
  induction b generalizing cur names with
  | zero => exact walkWith_last hdot hup (fun _ _ hl => by cases hl) h
  | succ b ih => exact walkWith_last hdot hup (fun _ _ hl => ih hl) h

/-- **A directory below `R` by its path alone** is below `R` where it is found. -/
theorem LeadsIn.below {m : Machine C} {R T : Location} (h : LeadsIn m.disk R)
    (hdir : m.disk.get? R = some .dir) (hT : Undotted T) (hbelow : R <+: T) (hne : T ≠ R)
    (hfound : lookup m false ⟨true, T⟩ = .found q) : R <+: q ∧ q ≠ R := by
  obtain ⟨rest, rfl⟩ := hbelow
  have hrest : rest ≠ [] := by
    rintro rfl
    exact hne (List.append_nil R)
  obtain ⟨names, last, rfl⟩ := (List.eq_nil_or_concat rest).resolve_left hrest
  rw [List.concat_eq_append, ← List.append_assoc] at hT hfound
  obtain ⟨hdot, hup⟩ := hT last (List.mem_append_right _ (List.mem_singleton_self last))
  obtain ⟨p, k, rfl, hk⟩ := walk_last hdot hup hfound
  obtain ⟨R', k₁, k₂, hR', hp, -⟩ := hk.split
  -- the names of `R` lead to `R`
  obtain ⟨k', -, hR⟩ := resolves_of_lookup
    (lookup_located hdir rfl : lookup m true ⟨true, R⟩ = .found R)
  obtain ⟨rfl, -⟩ := hR.unique hR'
  have hnames : ".." ∉ names := fun hmem =>
    (hT ".." (List.mem_append_left _ (List.mem_append_right _ hmem))).2 rfl
  have hpre := h.resolves List.prefix_rfl hnames hp
  refine ⟨hpre.trans (List.prefix_append p [last]), fun heq => ?_⟩
  have hlen := hpre.length_le
  rw [← heq, List.length_append, List.length_singleton] at hlen
  omega

end Last

/-! ## Targets that point inside -/

/-- The names, from `cur` on, stay below `R` by their text: after at most as many `..` as lead up to
`R`, or along `R` itself, there is no `..` in them. -/
inductive Inward (R : Location) : Location → List String → Prop
  | within {rel : Location} {k : Nat} {rest : List String} (hk : k ≤ rel.length)
    (hrest : ".." ∉ rest) : Inward R (R ++ rel) (List.replicate k ".." ++ rest)
  | along {cur above : Location} {rest : List String} (hR : R = cur ++ above)
    (hrest : ".." ∉ rest) : Inward R cur (above ++ rest)

/-- The target of every link below `R` stays below `R` by its text. -/
def PointsIn (d : Disk C) (R : Location) : Prop :=
  ∀ cur name target, R <+: cur → d.get? (cur ++ [name]) = some (.link target) →
    Inward R (startOf cur (PosixPath.ofString target)) (PosixPath.ofString target).names

section Pointing

variable {d : Disk C} {R cur q : Location} {names : List String} {k : Nat}

/-- From below `R` on, without `..`. -/
theorem Inward.below (hcur : R <+: cur) (hnames : ".." ∉ names) : Inward R cur names := by
  obtain ⟨rel, rfl⟩ := hcur
  exact .within (k := 0) (Nat.zero_le _) hnames

/-- After a name other than `..`, there is none left, or the name leads along `R`. -/
theorem Inward.tail {name : String} (h : Inward R cur (name :: names)) (hup : name ≠ "..") :
    R <+: cur ∧ ".." ∉ names ∨ cur ++ [name] <+: R ∧ Inward R (cur ++ [name]) names := by
  generalize hnames : name :: names = all at h
  cases h with
  | @within rel k rest hk hrest =>
    cases k with
    | zero =>
      subst hnames
      exact .inl ⟨List.prefix_append _ _, fun hmem => hrest (List.mem_cons_of_mem _ hmem)⟩
    | succ k => exact absurd (List.cons.inj hnames).1 hup
  | @along cur above rest hR hrest =>
    cases above with
    | nil =>
      subst hnames
      rw [List.append_nil] at hR
      exact .inl ⟨hR ▸ List.prefix_rfl, fun hmem => hrest (List.mem_cons_of_mem _ hmem)⟩
    | cons x xs =>
      cases hnames
      rw [List.append_cons] at hR
      exact .inr ⟨hR ▸ List.prefix_append _ _, .along hR hrest⟩

theorem Inward.up (h : Inward R cur (".." :: names)) (hR : Undotted R) :
    Inward R cur.dropLast names := by
  generalize hnames : ".." :: names = all at h
  cases h with
  | @within rel k rest hk hrest =>
    cases k with
    | zero =>
      subst hnames
      exact absurd List.mem_cons_self hrest
    | succ k =>
      cases hnames
      have hrel : rel ≠ [] := by
        rintro rfl
        cases hk
      rw [List.dropLast_append_of_ne_nil hrel]
      refine .within ?_ hrest
      rw [List.length_dropLast]
      omega
  | @along cur above rest hR' hrest =>
    cases above with
    | nil =>
      subst hnames
      exact absurd List.mem_cons_self hrest
    | cons x xs =>
      cases hnames
      exact absurd rfl (hR ".." (hR' ▸ List.mem_append_right _ List.mem_cons_self)).2

/-- **Names that stay below `R` by their text lead below it**, where the targets do and no link is
on the way to `R`. -/
theorem Inward.resolves (hpoints : PointsIn d R) (hR : Undotted R)
    (hplain : ∀ q, q <+: R → ∀ target, d.get? q ≠ some (.link target)) (h : Inward R cur names)
    (hres : Resolves d cur names q k) : R <+: q := by
  induction hres with
  | nil cur =>
    generalize hnames : ([] : List String) = names at h
    cases h with
    | within => exact List.prefix_append _ _
    | along hR' =>
      rw [(List.append_eq_nil_iff.mp hnames.symm).1, List.append_nil] at hR'
      exact hR' ▸ List.prefix_rfl
  | dot hdot _ ih =>
    subst hdot
    rcases h.tail (by decide) with ⟨hcur, hrest⟩ | ⟨halong, -⟩
    · exact ih (.below hcur hrest)
    · have hmem := halong.subset (List.mem_append_right _ (List.mem_singleton_self "."))
      exact absurd rfl (hR "." hmem).1
  | up _ hup _ ih =>
    subst hup
    exact ih (h.up hR)
  | step _ hup _ _ ih =>
    rcases h.tail hup with ⟨hcur, hrest⟩ | ⟨-, hin⟩
    · exact ih (.below (hcur.trans (List.prefix_append _ _)) hrest)
    · exact ih hin
  | link _ hup hlink _ _ ih₁ ih₂ =>
    rcases h.tail hup with ⟨hcur, hrest⟩ | ⟨halong, -⟩
    · exact ih₂ (.below (ih₁ (hpoints _ _ _ hcur hlink)) hrest)
    · exact absurd hlink (hplain _ halong _)

/-- **Where every target points inside, no link leads out**, whatever links are removed. -/
theorem PointsIn.keepsIn (h : PointsIn d R) (hdir : d.get? R = some .dir) : KeepsIn d R := by
  intro d' hd cur name target q k hcur hlink hres
  have hpoints : PointsIn d' R := fun cur name target hcur hlink =>
    h cur name target hcur (hd.links _ target hlink)
  refine (hpoints cur name target hcur hlink).resolves hpoints (undotted_of_some hdir) ?_ hres
  -- along `R` there are directories
  rintro p ⟨rest, hrest⟩ target ht
  have hbefore := hd.links p target ht
  rw [← hrest] at hdir
  by_cases hnil : rest = []
  · rw [hnil, List.append_nil, hbefore] at hdir
    cases hdir
  · rw [Disk.ancestor_dir hnil hdir] at hbefore
    cases hbefore

end Pointing

end ClawEngine.Posix
