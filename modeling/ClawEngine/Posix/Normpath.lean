import ClawEngine.Posix.Pathlib

/-!
# os.path.normpath

`posixpath.normpath`, on texts alone. `normalOf` is what a text is normalised to: how many slashes
it starts with (none, one or two; three and more count as one) and its names, where an empty one and
`.` are left out and `..` takes the name before it away, if there is one to take. `normpath` is the
text of that, and is normalised to the same (`normalOf_normpath`).

A text is strictly below a root when it is normalised to the root's names with others after them and
no `..` among these.
-/

set_option autoImplicit false

namespace ClawEngine.Posix

/-! ## The function -/

/-- `initial_slashes`: one, but two where there are exactly two. -/
def initialSlashes (cs : List Char) : Nat :=
  bif ['/', '/'].isPrefixOf cs && not (['/', '/', '/'].isPrefixOf cs) then 2
  else bif ['/'].isPrefixOf cs then 1
  else 0

/-- The names of a path, after one more component. -/
def normStep (rooted : Bool) (names : List String) (comp : String) : List String :=
  if comp = "" ∨ comp = "." then names
  else if comp ≠ ".." ∨ (rooted = false ∧ names = []) ∨ names.getLast? = some ".." then
    names ++ [comp]
  else names.dropLast

/-- What a path is normalised to. -/
structure Normal where
  slashes : Nat
  names : List String
  deriving DecidableEq, Repr

/-- `path.split("/")`. -/
def components (s : String) : List String := (splitNames s.toList).map String.ofList

def normalOf (s : String) : Normal where
  slashes := initialSlashes s.toList
  names := (components s).foldl (normStep (initialSlashes s.toList ≠ 0)) []

/-- `sep * initial_slashes + sep.join(comps) or dot`. -/
def Normal.text (n : Normal) : String :=
  if n.slashes = 0 ∧ n.names = [] then "."
  else String.ofList (List.replicate n.slashes '/') ++ "/".intercalate n.names

/-- `os.path.normpath(s)`. -/
def normpath (s : String) : String := (normalOf s).text

/-! ## Components -/

/-- A component that is not left out. -/
def isKept (comp : String) : Bool := comp ≠ "" ∧ comp ≠ "."

section Steps

variable {rooted : Bool} {names : List String} {comp : String} {comps : List String}

theorem normStep_skip (rooted : Bool) (names : List String) (h : comp = "" ∨ comp = ".") :
    normStep rooted names comp = names := if_pos h

theorem normStep_push (hskip : ¬ (comp = "" ∨ comp = ".")) (hup : comp ≠ "..") :
    normStep rooted names comp = names ++ [comp] := by
  rw [normStep, if_neg hskip, if_pos (.inl hup)]

theorem normStep_up (rooted : Bool) (hlast : names.getLast? = some "..") :
    normStep rooted names ".." = names ++ [".."] := by
  rw [normStep, if_neg (by decide), if_pos (.inr (.inr hlast))]

/-- Components without a `..` go on from the names before them. -/
theorem foldl_normStep (h : ".." ∉ comps) :
    comps.foldl (normStep rooted) names = names ++ comps.filter isKept := by
  induction comps generalizing names with
  | nil => exact (List.append_nil names).symm
  | cons comp comps ih =>
    rw [List.mem_cons, not_or] at h
    rw [List.foldl_cons, ih h.2]
    by_cases hskip : comp = "" ∨ comp = "."
    · rw [normStep_skip rooted _ hskip, List.filter_cons_of_neg]
      rcases hskip with rfl | rfl <;> decide
    · have hkept : isKept comp = true := decide_eq_true (not_or.mp hskip)
      rw [normStep_push hskip (Ne.symm h.1), List.filter_cons_of_pos hkept, List.append_assoc,
        List.singleton_append]

theorem foldl_normStep_skip :
    (comps ++ [""]).foldl (normStep rooted) names = comps.foldl (normStep rooted) names := by
  rw [List.foldl_append]
  exact normStep_skip rooted _ (.inl rfl)

end Steps

/-! ## Joining -/

/-- What starts a text stays at its start. -/
theorem initialSlashes_append (xs : List Char) {ys : List Char} (h : ys.head? ≠ some '/') :
    initialSlashes (xs ++ ys) = initialSlashes xs := by
  have hys : ∀ ps, ('/' :: ps).isPrefixOf ys = false := by
    intro ps
    cases ys with
    | nil => rfl
    | cons y ys =>
      have hne : ('/' == y) = false := beq_eq_false_iff_ne.mpr fun hy => h (congrArg some hy.symm)
      rw [List.isPrefixOf, hne, Bool.false_and]
  rcases xs with _ | ⟨a, _ | ⟨b, _ | ⟨c, xs⟩⟩⟩ <;>
    simp only [initialSlashes, List.isPrefixOf, List.nil_append, List.cons_append, hys,
      Bool.and_true, Bool.and_false, Bool.not_false]

/-- A slash after a text that does not end in one is not at its start. -/
theorem initialSlashes_append_slash {xs ys : List Char} (hne : xs ≠ [])
    (hlast : xs.getLast? ≠ some '/') : initialSlashes (xs ++ '/' :: ys) = initialSlashes xs := by
  rcases xs with _ | ⟨a, _ | ⟨b, _ | ⟨c, xs⟩⟩⟩
  · exact absurd rfl hne
  · have ha : ('/' == a) = false := beq_eq_false_iff_ne.mpr fun h => hlast (congrArg some h.symm)
    simp only [initialSlashes, List.isPrefixOf, List.cons_append, ha, Bool.false_and]
  · have hb : ('/' == b) = false := beq_eq_false_iff_ne.mpr fun h => hlast (congrArg some h.symm)
    simp only [initialSlashes, List.isPrefixOf, List.nil_append, List.cons_append, hb,
      Bool.false_and, Bool.and_false]
  · simp only [initialSlashes, List.isPrefixOf, List.cons_append]

/-- **Joining goes on from what the root is normalised to**, where no component goes up. -/
theorem normalOf_pathJoin {root s : String} (hrelative : s.toList.head? ≠ some '/')
    (hdown : ".." ∉ components s) : normalOf (pathJoin root s) =
      ⟨(normalOf root).slashes, (normalOf root).names ++ (components s).filter isKept⟩ := by
  have hjoin : ∃ before, components (pathJoin root s) = before ++ components s ∧
      initialSlashes (pathJoin root s).toList = initialSlashes root.toList ∧
      ∀ rooted, before.foldl (normStep rooted) [] =
        (components root).foldl (normStep rooted) [] := by
    unfold pathJoin
    rw [if_neg hrelative]
    by_cases hempty : root.toList = []
    · obtain rfl := String.toList_eq_nil_iff.mp hempty
      rw [if_pos (.inl hempty), String.empty_append]
      exact ⟨[], rfl, initialSlashes_append [] hrelative, fun _ => rfl⟩
    by_cases hlast : root.toList.getLast? = some '/'
    · obtain ⟨before, hbefore⟩ := List.getLast?_eq_some_iff.mp hlast
      rw [if_pos (.inr hlast)]
      refine ⟨(splitNames before).map String.ofList, ?_, ?_, fun rooted => ?_⟩
      · rw [components, String.toList_append, hbefore, List.append_assoc, List.singleton_append,
          splitNames_append_slash, List.map_append]
        rfl
      · rw [String.toList_append, initialSlashes_append _ hrelative]
      · rw [components, hbefore, splitNames_append_slash, List.map_append]
        exact foldl_normStep_skip.symm
    · have hslash : (root ++ "/" ++ s).toList = root.toList ++ '/' :: s.toList := by
        simp only [String.toList_append, List.append_assoc]
        rfl
      rw [if_neg (not_or.mpr ⟨hempty, hlast⟩)]
      refine ⟨components root, ?_, ?_, fun _ => rfl⟩
      · rw [components, hslash, splitNames_append_slash, List.map_append]
        rfl
      · rw [hslash, initialSlashes_append_slash hempty hlast]
  obtain ⟨before, hcomponents, hslashes, hfold⟩ := hjoin
  unfold normalOf
  rw [hcomponents, hslashes, List.foldl_append, hfold, foldl_normStep hdown]

/-! ## Normal forms -/

/-- Names that stand for themselves, after any number of `..` where nothing is above them. -/
structure NormalNames (rooted : Bool) (names : List String) : Prop where
  sliced : ∀ name ∈ names, Sliced name
  kept : ∀ name ∈ names, isKept name = true
  up_first : ∃ ups rest, names = List.replicate ups ".." ++ rest ∧ ".." ∉ rest ∧
    (rooted = true → ups = 0)

section NormalForms

variable {rooted : Bool} {names : List String}

theorem NormalNames.nil : NormalNames rooted [] where
  sliced _ h := absurd h List.not_mem_nil
  kept _ h := absurd h List.not_mem_nil
  up_first := ⟨0, [], rfl, List.not_mem_nil, fun _ => rfl⟩

theorem NormalNames.push (h : NormalNames rooted names) {comp : String} (hsliced : Sliced comp)
    (hkept : isKept comp = true) (hup : ∃ ups rest, names ++ [comp] =
      List.replicate ups ".." ++ rest ∧ ".." ∉ rest ∧ (rooted = true → ups = 0)) :
    NormalNames rooted (names ++ [comp]) where
  sliced := List.forall_mem_append.mpr ⟨h.sliced, List.forall_mem_singleton.mpr hsliced⟩
  kept := List.forall_mem_append.mpr ⟨h.kept, List.forall_mem_singleton.mpr hkept⟩
  up_first := hup

/-- **One more component leaves a normal form.** -/
theorem NormalNames.step (h : NormalNames rooted names) {comp : String}
    (hslash : '/' ∉ comp.toList) : NormalNames rooted (normStep rooted names comp) := by
  obtain ⟨ups, rest, rfl, hrest, hrooted⟩ := h.up_first
  by_cases hskip : comp = "" ∨ comp = "."
  · rw [normStep_skip rooted _ hskip]
    exact h
  have hkept : isKept comp = true := decide_eq_true (not_or.mp hskip)
  have hsliced : Sliced comp := ⟨(not_or.mp hskip).1, hslash⟩
  by_cases hup : comp = ".."
  · subst hup
    rcases List.eq_nil_or_concat rest with rfl | ⟨before, last, rfl⟩
    · -- only `..` so far: one more, unless the path is rooted and there is none
      rw [List.append_nil] at h ⊢
      cases ups with
      | zero =>
        cases rooted with
        | true => exact .nil
        | false =>
          exact .push .nil hsliced hkept ⟨1, [], rfl, List.not_mem_nil, fun h => by cases h⟩
      | succ ups =>
        have hlast : (List.replicate (ups + 1) "..").getLast? = some ".." := by
          rw [List.replicate_succ', List.getLast?_concat]
        rw [normStep_up rooted hlast]
        refine h.push hsliced hkept ⟨ups + 1 + 1, [], ?_, List.not_mem_nil, fun h => ?_⟩
        · rw [List.append_nil, List.replicate_succ' (n := ups + 1)]
        · exact absurd (hrooted h) (Nat.succ_ne_zero ups)
    · -- a name is taken away
      rw [List.concat_eq_append, List.mem_append, not_or, List.mem_singleton] at hrest
      rw [List.concat_eq_append, ← List.append_assoc] at h ⊢
      have hlast : (List.replicate ups ".." ++ before ++ [last]).getLast? ≠ some ".." := by
        rw [List.getLast?_concat]
        exact fun heq => hrest.2 (Option.some.inj heq).symm
      have hne : List.replicate ups ".." ++ before ++ [last] ≠ [] := by
        exact List.append_ne_nil_of_right_ne_nil _ (List.cons_ne_nil _ _)
      have hstep : normStep rooted (List.replicate ups ".." ++ before ++ [last]) ".." =
          List.replicate ups ".." ++ before := by
        rw [normStep, if_neg hskip, if_neg, List.dropLast_concat]
        rintro (h | ⟨-, h⟩ | h)
        · exact h rfl
        · exact hne h
        · exact hlast h
      rw [hstep]
      exact ⟨(List.forall_mem_append.mp h.sliced).1, (List.forall_mem_append.mp h.kept).1,
        ⟨ups, before, rfl, hrest.1, hrooted⟩⟩
  · rw [normStep_push hskip hup]
    refine h.push hsliced hkept ⟨ups, rest ++ [comp], List.append_assoc _ _ _, ?_, hrooted⟩
    rw [List.mem_append, not_or, List.mem_singleton]
    exact ⟨hrest, Ne.symm hup⟩

theorem NormalNames.foldl (h : NormalNames rooted names) {comps : List String}
    (hslash : ∀ comp ∈ comps, '/' ∉ comp.toList) :
    NormalNames rooted (comps.foldl (normStep rooted) names) := by
  induction comps generalizing names with
  | nil => exact h
  | cons comp comps ih =>
    obtain ⟨hcomp, hcomps⟩ := List.forall_mem_cons.mp hslash
    exact ih (h.step hcomp) hcomps

theorem slash_notMem_components {s comp : String} (h : comp ∈ components s) :
    '/' ∉ comp.toList := by
  obtain ⟨cs, hcs, rfl⟩ := List.mem_map.mp h
  rw [String.toList_ofList]
  exact slash_notMem_splitNames hcs

/-- **What a text is normalised to is a normal form.** -/
theorem normalNames_normalOf (s : String) :
    NormalNames ((normalOf s).slashes ≠ 0) (normalOf s).names :=
  NormalNames.nil.foldl fun _ => slash_notMem_components

/-- A normal form is normalised to itself. -/
theorem NormalNames.foldl_self (h : NormalNames rooted names) :
    names.foldl (normStep rooted) [] = names := by
  obtain ⟨ups, rest, rfl, hrest, hrooted⟩ := h.up_first
  have hups : (List.replicate ups "..").foldl (normStep rooted) [] = List.replicate ups ".." := by
    clear h
    induction ups with
    | zero => rfl
    | succ ups ih =>
      cases rooted with
      | true => exact absurd (hrooted rfl) (Nat.succ_ne_zero ups)
      | false =>
        rw [List.replicate_succ', List.foldl_append, ih fun h => by cases h]
        cases ups with
        | zero => rfl
        | succ ups =>
          have hlast : (List.replicate (ups + 1) "..").getLast? = some ".." := by
            rw [List.replicate_succ', List.getLast?_concat]
          rw [List.foldl_cons, normStep_up false hlast, ← List.replicate_succ']
          rfl
  rw [List.foldl_append, hups, foldl_normStep hrest, List.filter_eq_self.mpr]
  exact (List.forall_mem_append.mp h.kept).2

end NormalForms

/-! ## The text of a normal form -/

/-- Empty components do not count. -/
theorem names_normalOf (s : String) : (normalOf s).names =
    (namesOf s.toList).foldl (normStep (initialSlashes s.toList ≠ 0)) [] := by
  have hskip : ∀ (rooted : Bool) (split : List (List Char)) (names : List String),
      (split.map String.ofList).foldl (normStep rooted) names =
        ((split.filter (· ≠ [])).map String.ofList).foldl (normStep rooted) names := by
    intro rooted split
    induction split with
    | nil => exact fun _ => rfl
    | cons cs split ih =>
      intro names
      by_cases hcs : cs = []
      · subst hcs
        rw [List.map_cons, List.foldl_cons, normStep_skip rooted names (.inl rfl), ih]
        rfl
      · have hfilter : (cs :: split).filter (· ≠ []) = cs :: split.filter (· ≠ []) :=
          List.filter_cons_of_pos (decide_eq_true hcs)
        rw [hfilter, List.map_cons, List.foldl_cons, ih]
        rfl
  exact hskip _ _ []

theorem initialSlashes_le (cs : List Char) : initialSlashes cs ≤ 2 := by
  unfold initialSlashes
  cases ['/', '/'].isPrefixOf cs && not (['/', '/', '/'].isPrefixOf cs) <;>
    cases ['/'].isPrefixOf cs <;> decide

theorem initialSlashes_replicate : ∀ k ≤ 2, initialSlashes (List.replicate k '/') = k := by decide

theorem namesOf_replicate_slash (k : Nat) (cs : List Char) :
    namesOf (List.replicate k '/' ++ cs) = namesOf cs := by
  induction k with
  | zero => rfl
  | succ k ih => exact (namesOf_append_slash [] _).trans ih

/-- **The text of a normal form is normalised to it.** -/
theorem normalOf_text {n : Normal} (hslashes : n.slashes ≤ 2)
    (hnames : NormalNames (n.slashes ≠ 0) n.names) : normalOf n.text = n := by
  obtain ⟨slashes, names⟩ := n
  by_cases hdot : slashes = 0 ∧ names = []
  · obtain ⟨rfl, rfl⟩ := hdot
    decide
  have htext : (Normal.mk slashes names).text.toList =
      List.replicate slashes '/' ++ ("/".intercalate names).toList := by
    rw [Normal.text, if_neg hdot, String.toList_append, String.toList_ofList]
  have hinitial : initialSlashes (Normal.mk slashes names).text.toList = slashes := by
    rw [htext, initialSlashes_append _ (intercalate_relative hnames.sliced),
      initialSlashes_replicate _ hslashes]
  have hfold : (normalOf (Normal.mk slashes names).text).names = names := by
    rw [names_normalOf, hinitial, htext, namesOf_replicate_slash,
      namesOf_intercalate hnames.sliced]
    exact hnames.foldl_self
  exact congrArg₂ Normal.mk hinitial hfold

/-- **Normalising again changes nothing.** -/
theorem normalOf_normpath (s : String) : normalOf (normpath s) = normalOf s :=
  normalOf_text (initialSlashes_le _) (normalNames_normalOf s)

/-- What the text of a `Path` is normalised to. -/
theorem normalOf_pathText {q : PosixPath} (h : ∀ name ∈ q.names, Sliced name) :
    normalOf q.text =
      ⟨if q.absolute then 1 else 0, q.names.foldl (normStep q.absolute) []⟩ := by
  obtain ⟨absolute, names⟩ := q
  have hnormal : ∀ (slashes : Nat), slashes ≤ 1 → ∀ s : String,
      s.toList = List.replicate slashes '/' ++ ("/".intercalate names).toList →
        normalOf s = ⟨slashes, names.foldl (normStep (slashes ≠ 0)) []⟩ := by
    intro slashes hle s hs
    have hinitial : initialSlashes s.toList = slashes := by
      rw [hs, initialSlashes_append _ (intercalate_relative h),
        initialSlashes_replicate _ (Nat.le_succ_of_le hle)]
    have hnames := names_normalOf s
    rw [hinitial, hs, namesOf_replicate_slash, namesOf_intercalate h] at hnames
    exact congrArg₂ Normal.mk hinitial hnames
  cases absolute with
  | true => exact hnormal 1 (Nat.le_refl 1) _ (String.toList_append ..)
  | false =>
    by_cases hnil : names = []
    · subst hnil
      decide
    · exact hnormal 0 (Nat.zero_le 1) _ (congrArg String.toList (if_neg hnil))

/-! ## Below a root -/

/-- The text is the root with names after it, none of which goes up. -/
def StrictlyBelow (root s : String) : Prop :=
  ∃ rest, rest ≠ [] ∧ ".." ∉ rest ∧
    normalOf s = ⟨(normalOf root).slashes, (normalOf root).names ++ rest⟩

/-- The text is the root with one name after it. -/
def DirectlyBelow (root s : String) : Prop :=
  ∃ name, name ≠ ".." ∧ normalOf s = ⟨(normalOf root).slashes, (normalOf root).names ++ [name]⟩

/-- Nothing directly below a root contains anything else directly below it. -/
theorem DirectlyBelow.not_below {root s t : String} (hs : DirectlyBelow root s)
    (ht : DirectlyBelow root t) : ¬ StrictlyBelow s t := by
  obtain ⟨name, -, hs⟩ := hs
  obtain ⟨name', -, ht⟩ := ht
  rintro ⟨rest, hrest, -, hbelow⟩
  rw [hs, ht] at hbelow
  have hlength := congrArg (fun n : Normal => n.names.length) hbelow
  simp only [List.length_append, List.length_singleton] at hlength
  exact hrest (List.eq_nil_of_length_eq_zero (by omega))

end ClawEngine.Posix
