import ClawEngine.Laws.RefreshStages
import ClawEngine.Posix.Visible
import ClawEngine.Skills.Git

/-!
# The overlay

The directory `.claw_skills_flat` holds one link for each nested path. A refresh visits the names of
its own allowed paths: it takes away the link that is there, and makes one anew if the checkout has
the path. Links under other names stay.

Two refreshes of the same paths, on machines that agree apart from the git directory and the links
under these names, leave machines that agree apart from the git directory.
-/

set_option autoImplicit false

namespace ClawEngine.Skills

open ClawEngine.Core ClawEngine.Posix ClawEngine.Context

variable {C : Type} {host : GitHost C} {dir : PosixPath} {D : Location} {m m' : Machine C}

/-- The name of the overlay's directory. -/
def overlayName : String := ".claw_skills_flat"

/-- The overlay's directory. -/
def overlayAt (D : Location) : Location := D ++ [overlayName]

/-- The overlay's entries under the names. -/
def entriesAt (D : Location) (names : List String) : Set Location :=
  {q | ∃ name ∈ names, q = overlayAt D ++ [name]}

theorem overlayName_entry : isEntryName overlayName = true := by decide

/-- The cache directory has an overlay, which holds only links. -/
structure HasOverlay (dir : PosixPath) (D : Location) (m : Machine C) : Prop where
  stands : StandsAt m dir.sys D
  dir : m.disk.get? (overlayAt D) = some .dir
  links : ∀ name rest e, m.disk.get? (overlayAt D ++ name :: rest) = some e →
    rest = [] ∧ e.isLink = true

namespace HasOverlay

theorem goesOn (h : HasOverlay dir D m) : GoesOn m (dir.child overlayName) (overlayAt D) :=
  h.stands.leads.goesOn.of_sys.child h.dir

/-- What is below an entry of the overlay: nothing. -/
theorem below (h : HasOverlay dir D m) {name : String} {rest : Location} (hrest : rest ≠ []) :
    m.disk.get? (overlayAt D ++ name :: rest) = none := by
  by_contra hsome
  obtain ⟨e, he⟩ := Option.ne_none_iff_exists'.mp hsome
  exact hrest (h.links name rest e he).1

end HasOverlay

/-- What lies at or below an entry of the overlay lies below the cache directory. -/
theorem sameOutside_of_entry {name : String}
    (h : SameOff {overlayAt D ++ [name]} m m') : SameOutside D m m' := by
  refine ⟨h.workdir, fun q hq => h.same q ?_⟩
  rintro place rfl hpre
  rw [overlayAt, List.append_assoc, List.singleton_append] at hpre
  apply hq
  refine ⟨(List.prefix_append D _).trans hpre, ?_⟩
  rintro rfl
  have hlen := hpre.length_le
  rw [List.length_append, List.length_cons] at hlen
  omega

theorem overlayAt_off (name : String) : overlayAt D ∈ Off {overlayAt D ++ [name]} := by
  rintro place rfl hpre
  have hlen := hpre.length_le
  rw [List.length_append, List.length_singleton] at hlen
  omega

/-! ## One path -/

/-- The link for one path is taken away, and made anew if the checkout then has the path. -/
structure Relinked (dir : PosixPath) (D : Location) (p : String) (m m' : Machine C) : Prop where
  workdir : m'.workdir = m.workdir
  same : ∀ q, ¬ overlayAt D ++ [baseName p] <+: q → m'.disk.get? q = m.disk.get? q
  link : ∃ m₁, SameOff {overlayAt D ++ [baseName p]} m m₁ ∧
    ∀ q, overlayAt D ++ [baseName p] <+: q → m'.disk.get? q =
      if q = overlayAt D ++ [baseName p] ∧ exists? m₁ (dir.joinText p) = true then
        some (.link (dir.joinText p).text)
      else none

theorem Relinked.sameOff {p : String} (h : Relinked dir D p m m') :
    SameOff {overlayAt D ++ [baseName p]} m m' :=
  ⟨h.workdir, fun q hq => h.same q (hq _ rfl)⟩

theorem Relinked.hasOverlay {p : String} (h : Relinked dir D p m m') (hm : HasOverlay dir D m) :
    HasOverlay dir D m' where
  stands := hm.stands.mono (sameOutside_of_entry h.sameOff)
  dir := (h.sameOff.same _ (overlayAt_off _)).trans hm.dir
  links name rest e he := by
    by_cases hpre : overlayAt D ++ [baseName p] <+: overlayAt D ++ name :: rest
    · obtain ⟨m₁, -, hlink⟩ := h.link
      rw [hlink _ hpre] at he
      split at he
      next hq =>
        cases he
        exact ⟨(List.cons.inj (List.append_cancel_left hq.1)).2, rfl⟩
      · cases he
    · rw [h.same _ hpre] at he
      exact hm.links name rest e he

/-- What clearing leaves: nothing at the entry. -/
theorem clearStale_eq_ok {name : String} (hm : HasOverlay dir D m)
    (hname : isEntryName name = true)
    (h : clearStale ((dir.child overlayName).child name) m = (.ok (), m')) :
    SameOff {overlayAt D ++ [name]} m m' ∧
      ∀ q, overlayAt D ++ [name] <+: q → m'.disk.get? q = none := by
  have hgoes := hm.goesOn
  have hlook := hgoes.lookup_child hname
  obtain ⟨there, m₁, hread, h⟩ := Act.bind_eq_ok.mp h
  obtain ⟨hthere, rfl⟩ := Act.read_eq_ok.mp hread
  cases hentry : m.disk.get? (overlayAt D ++ [name]) with
  | none =>
    rw [hentry, if_pos rfl] at hlook
    have hsymlink : isSymlink m ((dir.child overlayName).child name) = false := by
      rw [isSymlink, hlook]
    have hmissing : exists? m ((dir.child overlayName).child name) = false := by
      unfold exists?
      split
      next q hq =>
        refine absurd hq (hgoes.not_found (List.cons_ne_nil name []) (fun n hn => ?_)
          (fun r hr target => ?_) hentry q)
        · rwa [List.mem_singleton.mp hn]
        · rcases List.prefix_cons_iff.mp hr with rfl | ⟨r', rfl, hr'⟩
          · rw [List.append_nil, hm.dir]
            exact nofun
          · rw [List.prefix_nil.mp hr', hentry]
            exact nofun
      · rfl
    rw [hsymlink, hmissing] at hthere
    subst hthere
    cases h
    refine ⟨.refl _ m, fun q hq => ?_⟩
    obtain ⟨rest, rfl⟩ := hq
    by_cases hrest : rest = []
    · rw [hrest, List.append_nil, hentry]
    · rw [List.append_assoc]
      exact hm.below hrest
  | some e =>
    obtain ⟨-, hlink⟩ := hm.links name [] e hentry
    rw [hentry, if_neg (Option.some_ne_none e)] at hlook
    have hsymlink : isSymlink m ((dir.child overlayName).child name) = true := by
      simp only [isSymlink, hlook, hentry, hlink]
    rw [hsymlink, Bool.true_or] at hthere
    subst hthere
    rw [if_pos rfl] at h
    obtain ⟨isLink, m₁, hread', h⟩ := Act.bind_eq_ok.mp h
    obtain ⟨hlinked, rfl⟩ := Act.read_eq_ok.mp hread'
    rw [hsymlink, Bool.true_or] at hlinked
    subst hlinked
    rw [if_pos rfl] at h
    cases e with
    | dir => cases hlink
    | file content => cases hlink
    | link target =>
      obtain rfl := unlink_link hgoes hname hentry (Act.mapError_eq_ok.mp h)
      refine ⟨⟨rfl, fun q hq => Disk.get?_prune_of_apart m.disk (hq _ rfl)⟩, fun q hq => ?_⟩
      exact (Disk.get?_prune m.disk (List.concat_ne_nil name _) q).trans (if_pos hq)

theorem onMachine_eq_ok {A : Type} {f : FsError → RefreshError} {x : Fs C A} {s s' : Refreshing C}
    {a : A} (h : onMachine f x s = (.ok a, s')) :
    x s.machine = (.ok a, s'.machine) ∧ s' = { s with machine := s'.machine } := by
  unfold onMachine at h
  split at h
  next a' m hx =>
    cases h
    exact ⟨hx, rfl⟩
  · cases h

/-- **One allowed path** is relinked. -/
theorem linkAllowed_eq_ok {p : String} {s s' : Refreshing C} (hm : HasOverlay dir D s.machine)
    (hname : isEntryName (baseName p) = true)
    (h : linkAllowed host dir (dir.child overlayName) p s = (.ok (), s')) :
    Relinked dir D p s.machine s'.machine := by
  obtain ⟨_, s₁, hclear, h⟩ := Act.bind_eq_ok.mp h
  obtain ⟨hclear, hs₁⟩ := onMachine_eq_ok hclear
  obtain ⟨hsame, hgone⟩ := clearStale_eq_ok hm hname hclear
  obtain ⟨found, s₂, hask, h⟩ := Act.bind_eq_ok.mp h
  cases hask
  have hstill := hm.stands.mono (sameOutside_of_entry hsame)
  have hdir : s₁.machine.disk.get? (overlayAt D) = some .dir :=
    (hsame.same _ (overlayAt_off _)).trans hm.dir
  have hgoes : GoesOn s₁.machine (dir.child overlayName) (overlayAt D) :=
    hstill.leads.goesOn.of_sys.child hdir
  have hnone := hgone _ List.prefix_rfl
  have hlook := hgoes.lookup_child hname
  rw [if_pos hnone] at hlook
  split at h
  next hexists =>
    obtain ⟨hlink, hs'⟩ := onMachine_eq_ok h
    obtain ⟨q, hq, hmachine⟩ := symlinkTo_eq_ok (Act.mapError_eq_ok.mp hlink)
    rw [hlook] at hq
    cases hq
    have hput := Disk.get?_put (Disk.canPut_of_missing hname hdir hnone)
      (.link (dir.joinText p).text)
    refine ⟨by rw [hmachine]; exact hsame.workdir, fun q hq => ?_, s₁.machine, hsame, fun q hq => ?_⟩
    · rw [hmachine]
      refine (hput q).trans ?_
      rw [if_neg]
      · exact hsame.same q fun place hplace => hplace ▸ hq
      · rintro rfl
        exact hq List.prefix_rfl
    · rw [hmachine]
      refine (hput q).trans ?_
      rw [hgone q hq]
      simp only [hexists, and_true]
  next hmissing =>
    cases h
    refine ⟨hsame.workdir, fun q hq => hsame.same q fun place hplace => hplace ▸ hq,
      s'.machine, hsame, fun q hq => ?_⟩
    rw [hgone q hq, if_neg fun hand => hmissing hand.2]

/-! ## All paths -/

theorem covers_entries {names names' : List String} (h : names ⊆ names') (D : Location) :
    Covers (entriesAt D names') (entriesAt D names) :=
  covers_of_subset fun _ ⟨name, hname, hq⟩ => ⟨name, h hname, hq⟩

/-- The loop over the paths changes only the entries under their names. -/
theorem linkAll_eq_ok {paths : List String} {s s' : Refreshing C}
    (hm : HasOverlay dir D s.machine)
    (hnames : ∀ p ∈ paths, isEntryName (baseName p) = true)
    (h : linkAll host dir (dir.child overlayName) paths s = (.ok (), s')) :
    HasOverlay dir D s'.machine ∧
      SameOff (entriesAt D (paths.map baseName)) s.machine s'.machine := by
  induction paths generalizing s with
  | nil =>
    cases h
    exact ⟨hm, .refl _ _⟩
  | cons p paths ih =>
    obtain ⟨_, s₁, hlink, hrest⟩ := Act.bind_eq_ok.mp h
    have hone := linkAllowed_eq_ok hm (hnames p List.mem_cons_self) hlink
    obtain ⟨hm', hsame⟩ := ih (hone.hasOverlay hm)
      (fun p' hp' => hnames p' (List.mem_cons_of_mem p hp')) hrest
    refine ⟨hm', .trans (hone.sameOff.mono ?_) (hsame.mono ?_)⟩
    · rintro place rfl
      exact ⟨_, ⟨baseName p, List.mem_cons_self, rfl⟩, List.prefix_rfl⟩
    · exact covers_entries (fun name hname => List.mem_cons_of_mem _ hname) D

/-- The links of one path, made on two machines that agree where the path leads. -/
theorem Relinked.alike {p : String} {n n' : Machine C} {H : Set Location}
    (hp : ClearOf {gitAt D, overlayAt D} m (dir.joinText p))
    (hm : Relinked dir D p m m') (hn : Relinked dir D p n n')
    (hfar : Covers {gitAt D, overlayAt D} H)
    (hsame : SameOff (H ∪ {overlayAt D ++ [baseName p]}) m n) : SameOff H m' n' := by
  obtain ⟨m₁, hm₁, hmlink⟩ := hm.link
  obtain ⟨n₁, hn₁, hnlink⟩ := hn.link
  have hentry : Covers {gitAt D, overlayAt D} {overlayAt D ++ [baseName p]} := by
    rintro place rfl
    exact ⟨_, .inr rfl, List.prefix_append _ _⟩
  have hall : Covers {gitAt D, overlayAt D} (H ∪ {overlayAt D ++ [baseName p]}) := by
    rintro place (hplace | hplace)
    · exact hfar place hplace
    · exact hentry place hplace
  have hexists : exists? n₁ (dir.joinText p) = exists? m₁ (dir.joinText p) := by
    rw [hp.exists_eq (hm₁.mono hentry),
      hp.exists_eq ((hsame.mono hall).trans (hn₁.mono hentry))]
  refine ⟨by rw [hn.workdir, hsame.workdir, hm.workdir], fun q hq => ?_⟩
  by_cases hpre : overlayAt D ++ [baseName p] <+: q
  · rw [hmlink q hpre, hnlink q hpre, hexists]
  · rw [hm.same q hpre, hn.same q hpre]
    refine hsame.same q ?_
    rintro place (hplace | rfl)
    · exact hq place hplace
    · exact hpre

/-- **Links made anew are alike**: two machines that agree apart from the git directory and the
entries under the names of the paths agree apart from the git directory once these are made. -/
theorem linkAll_alike {host' : GitHost C} {paths : List String} {s s' t t' : Refreshing C}
    (hs : HasOverlay dir D s.machine) (ht : HasOverlay dir D t.machine)
    (hnames : ∀ p ∈ paths, isEntryName (baseName p) = true)
    (hclear : ∀ p ∈ paths, ClearOf {gitAt D, overlayAt D} s.machine (dir.joinText p))
    (hsame : SameOff ({gitAt D} ∪ entriesAt D (paths.map baseName)) s.machine t.machine)
    (h : linkAll host dir (dir.child overlayName) paths s = (.ok (), s'))
    (h' : linkAll host' dir (dir.child overlayName) paths t = (.ok (), t')) :
    SameOff {gitAt D} s'.machine t'.machine := by
  induction paths generalizing s t with
  | nil =>
    cases h
    cases h'
    refine hsame.mono ?_
    rintro place (hplace | ⟨name, hname, -⟩)
    · exact ⟨place, hplace, List.prefix_rfl⟩
    · cases hname
  | cons p paths ih =>
    obtain ⟨_, s₁, hlink, hrest⟩ := Act.bind_eq_ok.mp h
    obtain ⟨_, t₁, hlink', hrest'⟩ := Act.bind_eq_ok.mp h'
    have hone := linkAllowed_eq_ok hs (hnames p List.mem_cons_self) hlink
    have hone' := linkAllowed_eq_ok ht (hnames p List.mem_cons_self) hlink'
    have hentries : ∀ names : List String,
        Covers {gitAt D, overlayAt D} ({gitAt D} ∪ entriesAt D names) := by
      rintro names place (rfl | ⟨name, -, rfl⟩)
      · exact ⟨_, .inl rfl, List.prefix_rfl⟩
      · exact ⟨_, .inr rfl, List.prefix_append _ _⟩
    refine ih (hone.hasOverlay hs) (hone'.hasOverlay ht)
      (fun p' hp' => hnames p' (List.mem_cons_of_mem p hp')) (fun p' hp' => ?_) ?_ hrest hrest'
    · refine (hclear p' (List.mem_cons_of_mem p hp')).congr (hone.sameOff.mono ?_)
      rintro place rfl
      exact ⟨_, .inr rfl, List.prefix_append _ _⟩
    · refine hone.alike (hclear p List.mem_cons_self) hone' (hentries _) (hsame.mono ?_)
      rintro place (rfl | ⟨name, hname, rfl⟩)
      · exact ⟨_, .inl (.inl rfl), List.prefix_rfl⟩
      · rcases List.mem_cons.mp hname with rfl | hname
        · exact ⟨_, .inr rfl, List.prefix_rfl⟩
        · exact ⟨_, .inl (.inr ⟨name, hname, rfl⟩), List.prefix_rfl⟩

end ClawEngine.Skills
