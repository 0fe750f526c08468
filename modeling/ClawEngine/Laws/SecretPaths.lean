import ClawEngine.Secrets.OpenBao

/-!
# The paths of secrets

An accepted template has one field, the workspace id, between two fixed texts. What is requested is
the template with the id in its place exactly when the conversion and the format specification of
the field leave every id as it is; the constructor looks at neither. Then the paths of two
workspaces differ, and no segment of a path is empty, `.` or `..`.
-/

set_option autoImplicit false

namespace ClawEngine.Secrets

open ClawEngine.Core ClawEngine.Context ClawEngine.Posix

/-! ## What the constructor accepts -/

/-- A segment a path may have. -/
def SafeSegment (seg : List Char) : Prop := seg ≠ [] ∧ seg ≠ ['.'] ∧ seg ≠ ['.', '.']

instance (seg : List Char) : Decidable (SafeSegment seg) :=
  inferInstanceAs (Decidable (seg ≠ [] ∧ seg ≠ ['.'] ∧ seg ≠ ['.', '.']))

/-- A template and the chunks the constructor found in it, around the one field. -/
structure Accepted (py : OpenBaoLib) (template : String) (chunks : List Chunk) (field : Field) :
    Prop where
  parsed : parseMarkup template.toList = (chunks, none)
  single : chunks.filterMap (·.field) = [field]
  name : field.name = "workspace_id".toList
  sample : ∃ sample, formatTemplate py template templatePlaceholderSentinel = .ok sample ∧
    ∀ seg ∈ splitNames sample, SafeSegment seg

section Constructor

variable {py : OpenBaoLib} {template mount : String} {given p : OpenBaoSecretProvider}

/-- What passes a check, and what follows the check. -/
theorem refuseIf_bind_eq_ok {A : Type} {refused : Bool} {text : String}
    {k : Unit → Except OpenBaoError A} {a : A} :
    (refuseIf refused text >>= k) = .ok a ↔ refused = false ∧ k () = .ok a := by
  cases refused with
  | true =>
    constructor
    · intro h
      cases h
    · rintro ⟨h, -⟩
      cases h
  | false => exact ⟨fun h => ⟨rfl, h⟩, fun h => h.2⟩

theorem refuseIf_eq_ok {refused : Bool} {text : String} :
    refuseIf refused text = .ok () ↔ refused = false := by
  cases refused with
  | true => simp only [refuseIf, if_true, reduceCtorEq]
  | false => simp only [refuseIf, Bool.false_eq_true, if_false]

theorem checkSegments_ok {segs : List (List Char)} (h : checkSegments py template segs = .ok ()) :
    ∀ seg ∈ segs, SafeSegment seg := by
  induction segs with
  | nil => exact fun seg hseg => absurd hseg List.not_mem_nil
  | cons seg segs ih =>
    obtain ⟨_, hseg, hsegs⟩ := except_bind_eq_ok.mp h
    rw [List.forall_mem_cons]
    refine ⟨?_, ih hsegs⟩
    obtain ⟨hempty, hseg⟩ := refuseIf_bind_eq_ok.mp hseg
    obtain ⟨hdots, -⟩ := refuseIf_bind_eq_ok.mp hseg
    simp only [Bool.or_eq_false_iff, decide_eq_false_iff_not] at hempty hdots
    exact ⟨hempty, hdots⟩

theorem validatePathTemplate_ok (h : validatePathTemplate py template = .ok ()) :
    ∃ chunks field, Accepted py template chunks field := by
  unfold validatePathTemplate at h
  obtain ⟨-, h⟩ := refuseIf_bind_eq_ok.mp h
  obtain ⟨-, h⟩ := refuseIf_bind_eq_ok.mp h
  split at h
  · cases h
  · next chunks hparsed =>
    obtain ⟨hnames, h⟩ := refuseIf_bind_eq_ok.mp h
    obtain ⟨sample, hsample, hsegments⟩ := except_bind_eq_ok.mp h
    have hnames : fieldNames chunks = ["workspace_id"] :=
      not_not.mp (decide_eq_false_iff_not.mp hnames)
    obtain ⟨field, hsingle, hname⟩ := List.map_eq_singleton_iff.mp hnames
    refine ⟨chunks, field, hparsed, hsingle, ?_, sample, hsample, checkSegments_ok hsegments⟩
    rw [← hname, String.toList_ofList]

theorem validateMount_ok (h : validateMount py mount = .ok ()) :
    '/' ∉ mount.toList ∧ SafeSegment mount.toList := by
  obtain ⟨hempty, h⟩ := refuseIf_bind_eq_ok.mp h
  obtain ⟨hdots, h⟩ := refuseIf_bind_eq_ok.mp h
  have hchars := refuseIf_eq_ok.mp h
  simp only [Bool.or_eq_false_iff, decide_eq_false_iff_not, Bool.not_eq_false'] at hempty hdots hchars
  refine ⟨fun hslash => ?_, ?_, ?_, ?_⟩
  · exact absurd (List.all_eq_true.mp hchars '/' hslash) (by decide)
  · exact fun h => hempty (String.toList_inj.mp h)
  · exact fun h => hdots.1 (String.toList_inj.mp h)
  · exact fun h => hdots.2 (String.toList_inj.mp h)

/-- What is known of a provider that was constructed. -/
theorem init_ok (h : OpenBaoSecretProvider.init py given = .ok p) :
    (∃ chunks field, Accepted py p.pathTemplate chunks field) ∧
      '/' ∉ p.mount.toList ∧ SafeSegment p.mount.toList := by
  obtain ⟨_, -, h⟩ := except_bind_eq_ok.mp h
  obtain ⟨-, h⟩ := refuseIf_bind_eq_ok.mp h
  obtain ⟨_, hmount, h⟩ := except_bind_eq_ok.mp h
  obtain ⟨_, htemplate, h⟩ := except_bind_eq_ok.mp h
  obtain ⟨_, -, h⟩ := except_bind_eq_ok.mp h
  obtain ⟨_, -, h⟩ := except_bind_eq_ok.mp h
  cases h
  exact ⟨validatePathTemplate_ok htemplate, validateMount_ok hmount⟩

end Constructor

/-! ## What is requested -/

/-- The format specification of the field, filled in for a workspace. -/
def FilledSpec (py : OpenBaoLib) (field : Field) (workspaceId : String) (f : FormatSpec) : Prop :=
  ∃ spec, expandSpec (formatDepth py.toFormatLib (workspaceArgs workspaceId) 1) field = .ok spec ∧
    parseSpec py.toFormatLib spec = .ok f ∧ f.check = .ok ()

section Requests

variable {py : OpenBaoLib} {template workspaceId : String} {chunks : List Chunk} {field : Field}

theorem splitName_workspaceId : splitName "workspace_id".toList = ("workspace_id".toList, []) := by
  decide

/-- The field of an accepted template is the workspace id. -/
theorem fieldValue_workspaceId (hname : field.name = "workspace_id".toList) :
    fieldValue py.toFormatLib (workspaceArgs workspaceId) field =
      (convert py.toInterpreter field.conversion workspaceId.toList).map
        (formatText py.toFormatLib) := by
  have hdigit : py.decimal 'w' = none := py.decimal_ascii 'w' (by decide)
  have hscan : scanInteger py.toFormatLib none "workspace_id".toList =
      .ok (none, "workspace_id".toList) := by
    show scanInteger py.toFormatLib none ('w' :: "orkspace_id".toList) = _
    simp only [scanInteger, hdigit]
    rfl
  simp only [fieldValue, hname, splitName_workspaceId, hscan, workspaceArgs, if_true]
  rfl

/-- **What a template is formatted to**: its literal texts, and between them what the field's
specification makes of the converted id. -/
theorem formatTemplate_eq_ok (h : Accepted py template chunks field) {path : List Char} :
    formatTemplate py template workspaceId = .ok path ↔
      ∃ value f, convert py.toInterpreter field.conversion workspaceId.toList = .ok value ∧
        FilledSpec py field workspaceId f ∧ path = fillFields (f.apply value) chunks := by
  rw [formatTemplate, except_mapError_eq_ok, strFormat, formatDepth, h.parsed]
  dsimp only
  rw [renderChunks_single h.single, map_eq_ok]
  constructor
  · rintro ⟨shown, hshown, rfl⟩
    obtain ⟨format, hformat, hshown⟩ := except_bind_eq_ok.mp hshown
    obtain ⟨spec, hspec, hshown⟩ := except_bind_eq_ok.mp hshown
    rw [fieldValue_workspaceId h.name] at hformat
    obtain ⟨value, hvalue, rfl⟩ := map_eq_ok.mp hformat
    obtain ⟨f, hf, hcheck, rfl⟩ := formatText_eq_ok.mp hshown
    exact ⟨value, f, hvalue, ⟨spec, hspec, hf, hcheck⟩, rfl⟩
  · rintro ⟨value, f, hvalue, ⟨spec, hspec, hf, hcheck⟩, rfl⟩
    refine ⟨f.apply value, ?_, rfl⟩
    rw [fieldValue_workspaceId h.name, except_bind_eq_ok]
    refine ⟨_, map_eq_ok.mpr ⟨value, hvalue, rfl⟩, ?_⟩
    rw [except_bind_eq_ok]
    exact ⟨spec, hspec, formatText_eq_ok.mpr ⟨f, hf, hcheck, rfl⟩⟩

theorem requestPath_eq_ok {p : OpenBaoSecretProvider} {path : String} :
    p.requestPath py workspaceId = .ok path ↔ isPlainName workspaceId = true ∧
      ∃ filled, formatTemplate py p.pathTemplate workspaceId = .ok filled ∧
        path = "/v1/" ++ p.mount ++ "/data/" ++ String.ofList filled := by
  constructor
  · intro h
    obtain ⟨hplain, h⟩ := refuseIf_bind_eq_ok.mp h
    obtain ⟨filled, hfilled, h⟩ := except_bind_eq_ok.mp h
    cases h
    exact ⟨by simpa only [Bool.not_eq_false'] using hplain, filled, hfilled, rfl⟩
  · rintro ⟨hplain, filled, hfilled, rfl⟩
    unfold OpenBaoSecretProvider.requestPath
    rw [refuseIf_bind_eq_ok, except_bind_eq_ok]
    exact ⟨by rw [hplain]; rfl, filled, hfilled, rfl⟩

end Requests

/-! ## Segments -/

/-- A text without a slash between two texts: it is in one segment, and the others are fixed. -/
theorem splitNames_between (before after : List Char) :
    ∃ init pre post tail, ∀ middle, '/' ∉ middle →
      splitNames (before ++ middle ++ after) = init ++ (pre ++ middle ++ post) :: tail := by
  induction before with
  | nil =>
    obtain ⟨post, tail, hsplit⟩ := List.exists_cons_of_ne_nil (splitNames_ne_nil after)
    refine ⟨[], [], post, tail, fun middle hmiddle => ?_⟩
    rw [List.nil_append, List.nil_append]
    induction middle with
    | nil => exact hsplit
    | cons c cs ih =>
      rw [List.mem_cons, not_or] at hmiddle
      simp only [List.cons_append, splitNames, if_neg (Ne.symm hmiddle.1), ih hmiddle.2]
  | cons c cs ih =>
    obtain ⟨init, pre, post, tail, hsplit⟩ := ih
    by_cases hc : c = '/'
    · refine ⟨[] :: init, pre, post, tail, fun middle hmiddle => ?_⟩
      simp only [List.cons_append, splitNames, if_pos hc, hsplit middle hmiddle]
    · cases init with
      | nil =>
        refine ⟨[], c :: pre, post, tail, fun middle hmiddle => ?_⟩
        simp only [List.cons_append, splitNames, if_neg hc, hsplit middle hmiddle, List.nil_append]
      | cons seg init =>
        refine ⟨(c :: seg) :: init, pre, post, tail, fun middle hmiddle => ?_⟩
        simp only [List.cons_append, splitNames, if_neg hc, hsplit middle hmiddle]

section Names

variable {workspaceId : String}

theorem isPlainName_iff : isPlainName workspaceId = true ↔
    SafeSegment workspaceId.toList ∧ ∀ c ∈ workspaceId.toList, isNameChar c = true := by
  have hempty : workspaceId.isEmpty = true ↔ workspaceId.toList = [] := by
    rw [String.isEmpty_iff, ← String.toList_inj]
    rfl
  have htext : ∀ t : String, workspaceId ≠ t ↔ workspaceId.toList ≠ t.toList := fun t =>
    not_congr String.toList_inj.symm
  simp only [isPlainName, Bool.and_eq_true, decide_eq_true_eq, Bool.not_eq_true', htext,
    ← Bool.not_eq_true, hempty, List.all_eq_true]
  exact ⟨fun ⟨⟨⟨h₁, h₂⟩, h₃⟩, h₄⟩ => ⟨⟨h₁, h₃, h₄⟩, h₂⟩,
    fun ⟨⟨h₁, h₃, h₄⟩, h₂⟩ => ⟨⟨⟨h₁, h₂⟩, h₃⟩, h₄⟩⟩

theorem plain_noSlash (h : isPlainName workspaceId = true) : '/' ∉ workspaceId.toList :=
  fun hslash => absurd ((isPlainName_iff.mp h).2 '/' hslash) (by decide)

theorem plain_safe (h : isPlainName workspaceId = true) : SafeSegment workspaceId.toList :=
  (isPlainName_iff.mp h).1

/-- A row of one letter, as long as one likes. -/
theorem plain_replicate (n : Nat) :
    isPlainName (String.ofList (List.replicate (n + 1) 'a')) = true := by
  rw [isPlainName_iff, String.toList_ofList]
  refine ⟨⟨?_, ?_, ?_⟩, fun c hc => ?_⟩
  · exact List.cons_ne_nil _ _
  · exact fun h => absurd (List.cons_eq_cons.mp h).1 (by decide)
  · exact fun h => absurd (List.cons_eq_cons.mp h).1 (by decide)
  · rw [List.eq_of_mem_replicate hc]
    decide

/-- A safe segment around a text stays safe, when the text is a safe segment itself. -/
theorem SafeSegment.around {pre post middle : List Char} (h : SafeSegment middle) :
    SafeSegment (pre ++ middle ++ post) := by
  obtain ⟨hempty, hdot, hdots⟩ := h
  have hdotted : ∀ n ≤ 2, pre ++ middle ++ post ≠ List.replicate n '.' := by
    intro n hn heq
    have hlength := congrArg List.length heq
    simp only [List.length_append, List.length_replicate] at hlength
    have hall : ∀ c ∈ middle, c = '.' := by
      intro c hc
      refine List.eq_of_mem_replicate (n := n) ?_
      rw [← heq]
      exact List.mem_append_left _ (List.mem_append_right _ hc)
    have hmiddle := List.eq_replicate_iff.mpr ⟨rfl, hall⟩
    obtain h | h | h : middle.length = 0 ∨ middle.length = 1 ∨ middle.length = 2 := by omega
    · rw [h] at hmiddle
      exact hempty hmiddle
    · rw [h] at hmiddle
      exact hdot hmiddle
    · rw [h] at hmiddle
      exact hdots hmiddle
  exact ⟨hdotted 0 (by omega), hdotted 1 (by omega), hdotted 2 (by omega)⟩

end Names

/-! ## Which templates keep workspaces apart -/

/-- The template with its placeholder replaced. -/
def replacePlaceholder (template workspaceId : String) : String :=
  String.ofList (fillFields workspaceId.toList (parseMarkup template.toList).1)

/-- The secrets of different workspaces are requested under different paths: the template with the
id in its place, without empty or dot segments. -/
structure SecretsApart (py : OpenBaoLib) (p : OpenBaoSecretProvider) : Prop where
  apart : ∀ w w' path path', w ≠ w' → p.requestPath py w = .ok path →
    p.requestPath py w' = .ok path' → path ≠ path'
  verbatim : ∀ w path, p.requestPath py w = .ok path →
    path = "/v1/" ++ p.mount ++ "/data/" ++ replacePlaceholder p.pathTemplate w
  segments : ∀ w path, p.requestPath py w = .ok path →
    ∃ rest, path.toList = '/' :: rest ∧ ∀ seg ∈ splitNames rest, SafeSegment seg

/-- The conversion and the format specification of a field leave every workspace id as it is. -/
def KeepsIds (py : OpenBaoLib) (field : Field) : Prop :=
  ∀ w value f, isPlainName w = true → convert py.toInterpreter field.conversion w.toList = .ok value →
    FilledSpec py field w f → f.Gives value w.toList

/-- A field without a conversion but `!s`, and with a specification that neither cuts nor fills. -/
def IsVerbatim (py : OpenBaoLib) (field : Field) : Prop :=
  (field.conversion = none ∨ field.conversion = some 's') ∧
    ∃ f, parseSpec py.toFormatLib field.spec = .ok f ∧ f.precision = none ∧ f.width.getD 0 ≤ 1

section Apart

variable {py : OpenBaoLib} {p : OpenBaoSecretProvider} {chunks : List Chunk} {field : Field}

/-- Ids that the template is filled with as they are keep the secrets apart. -/
theorem secretsApart_of_verbatim (h : Accepted py p.pathTemplate chunks field)
    (hslash : '/' ∉ p.mount.toList) (hmount : SafeSegment p.mount.toList)
    (hverbatim : ∀ w filled, isPlainName w = true →
      formatTemplate py p.pathTemplate w = .ok filled → filled = fillFields w.toList chunks) :
    SecretsApart py p := by
  obtain ⟨before, after, hfill⟩ := fillFields_single h.single
  have hpath : ∀ w path, p.requestPath py w = .ok path → isPlainName w = true ∧
      path = "/v1/" ++ p.mount ++ "/data/" ++ String.ofList (before ++ w.toList ++ after) := by
    intro w path hw
    obtain ⟨hplain, filled, hfilled, rfl⟩ := requestPath_eq_ok.mp hw
    rw [hverbatim w filled hplain hfilled, hfill]
    exact ⟨hplain, rfl⟩
  constructor
  · intro w w' path path' hne hw hw' heq
    rw [(hpath w path hw).2, (hpath w' path' hw').2, String.append_right_inj,
      String.ofList_inj, List.append_left_inj, List.append_right_inj] at heq
    exact hne (String.toList_inj.mp heq)
  · intro w path hw
    rw [(hpath w path hw).2, replacePlaceholder, h.parsed, hfill]
  · intro w path hw
    obtain ⟨hplain, rfl⟩ := hpath w path hw
    obtain ⟨sample, hsample, hsafe⟩ := h.sample
    rw [hverbatim _ _ (by decide) hsample, hfill] at hsafe
    obtain ⟨init, pre, post, tail, hsplit⟩ := splitNames_between before after
    rw [hsplit _ (by decide)] at hsafe
    refine ⟨"v1".toList ++ '/' :: (p.mount.toList ++ '/' :: ("data".toList ++ '/' ::
      (before ++ w.toList ++ after))), ?_, ?_⟩
    · simp [String.toList_append]
    · rw [splitNames_append_slash, splitNames_append_slash, splitNames_append_slash,
        hsplit _ (plain_noSlash hplain)]
      simp only [splitNames_segment hslash, List.forall_mem_append, List.forall_mem_cons] at hsafe ⊢
      exact ⟨by decide, ⟨hmount, fun _ h => absurd h List.not_mem_nil⟩, by decide, hsafe.1,
        (plain_safe hplain).around, hsafe.2.2⟩

/-- The template is filled with an id as it is exactly when the specification gives the id. -/
theorem filled_iff_gives (h : Accepted py p.pathTemplate chunks field) :
    (∀ w filled, isPlainName w = true → formatTemplate py p.pathTemplate w = .ok filled →
      filled = fillFields w.toList chunks) ↔ KeepsIds py field := by
  obtain ⟨before, after, hfill⟩ := fillFields_single h.single
  have hshown : ∀ (f : FormatSpec) (value : List Char) (w : String),
      convert py.toInterpreter field.conversion w.toList = .ok value →
      (fillFields (f.apply value) chunks = fillFields w.toList chunks ↔ f.Gives value w.toList) := by
    intro f value w hvalue
    rw [hfill, hfill, List.append_left_inj, List.append_right_inj]
    exact f.apply_eq_iff (length_convert hvalue)
  constructor
  · intro hall w value f hplain hvalue hf
    refine (hshown f value w hvalue).mp (hall w _ hplain ?_)
    exact (formatTemplate_eq_ok h).mpr ⟨value, f, hvalue, hf, rfl⟩
  · intro hkeeps w filled hplain hfilled
    obtain ⟨value, f, hvalue, hf, rfl⟩ := (formatTemplate_eq_ok h).mp hfilled
    exact (hshown f value w hvalue).mpr (hkeeps w value f hplain hvalue hf)

/-- **Workspaces are kept apart** exactly by the templates that keep ids as they are. -/
theorem secretsApart_iff_keepsIds (h : Accepted py p.pathTemplate chunks field)
    (hslash : '/' ∉ p.mount.toList) (hmount : SafeSegment p.mount.toList) :
    SecretsApart py p ↔ KeepsIds py field := by
  rw [← filled_iff_gives h]
  constructor
  · intro hapart w filled hplain hfilled
    have heq := hapart.verbatim w _ (requestPath_eq_ok.mpr ⟨hplain, filled, hfilled, rfl⟩)
    rw [replacePlaceholder, h.parsed, String.append_right_inj] at heq
    exact String.ofList_injective heq
  · exact secretsApart_of_verbatim h hslash hmount

/-- Without fields in it, a specification is the same for every workspace. -/
theorem filledSpec_static (hstatic : '{' ∉ field.spec) (w : String) (f : FormatSpec) :
    FilledSpec py field w f ↔ parseSpec py.toFormatLib field.spec = .ok f ∧ f.check = .ok () := by
  simp only [FilledSpec, expandSpec, if_neg hstatic, Except.ok.injEq, exists_eq_left']

theorem convert_plain {conversion : Option Char} (h : conversion = none ∨ conversion = some 's')
    (s : List Char) : convert py.toInterpreter conversion s = .ok s := by
  rcases h with rfl | rfl
  · rfl
  · rfl

/-- A conversion that shows quotes does not leave an id as it is. -/
theorem conversion_of_gives {conversion : Option Char} {s value : List Char} {f : FormatSpec}
    (hvalue : convert py.toInterpreter conversion s = .ok value)
    (hgives : ∀ value, convert py.toInterpreter conversion ['a', 'b'] = .ok value →
      f.Gives value ['a', 'b']) : conversion = none ∨ conversion = some 's' := by
  have hquoted : ∀ interpreter : Interpreter,
      ¬ f.Gives (reprChars interpreter ['a', 'b']) ['a', 'b'] := by
    intro interpreter
    have hrepr : reprChars interpreter ['a', 'b'] = ['\'', 'a', 'b', '\''] := by
      simp [reprChars, Core.reprStr, reprChar]
    rw [hrepr]
    rintro (⟨h, -⟩ | ⟨p, -, -, h⟩)
    · cases h
    · cases p with
      | zero =>
        rw [List.take_zero, List.append_nil, ← List.replicate_add] at h
        have ha : 'a' = f.fill := List.eq_of_mem_replicate (h ▸ List.mem_cons_self)
        have hb : 'b' = f.fill :=
          List.eq_of_mem_replicate (h ▸ List.mem_cons_of_mem _ List.mem_cons_self)
        rw [← ha] at hb
        exact absurd hb (by decide)
      | succ p =>
        have hquote : '\'' ∈ ['a', 'b'] := by
          rw [h, List.take_succ_cons]
          exact List.mem_append_left _ (List.mem_append_right _ List.mem_cons_self)
        exact absurd hquote (by decide)
  cases conversion with
  | none => exact .inl rfl
  | some c =>
    simp only [convert] at hvalue hgives
    split_ifs at hvalue hgives with hr hs ha
    · exact absurd (hgives _ rfl) (hquoted _)
    · exact .inr (congrArg some hs)
    · exact absurd (hgives _ rfl) (hquoted _)

/-- **A specification without fields** keeps ids as they are exactly when nothing is converted, cut
or filled. -/
theorem keepsIds_iff_isVerbatim (h : Accepted py p.pathTemplate chunks field)
    (hstatic : '{' ∉ field.spec) : KeepsIds py field ↔ IsVerbatim py field := by
  obtain ⟨sample, hsample, -⟩ := h.sample
  obtain ⟨value, f, hvalue, hf, -⟩ := (formatTemplate_eq_ok h).mp hsample
  have hspec := (filledSpec_static hstatic _ f).mp hf
  have hfilled : ∀ w, FilledSpec py field w f := fun w => (filledSpec_static hstatic w f).mpr hspec
  constructor
  · intro hkeeps
    have hconversion := conversion_of_gives hvalue fun value hvalue =>
      hkeeps "ab" value f (by decide) hvalue (hfilled "ab")
    have hgives : ∀ n, f.Gives (List.replicate (n + 1) 'a') (List.replicate (n + 1) 'a') := by
      intro n
      have hgiven := hkeeps (String.ofList (List.replicate (n + 1) 'a')) _ f (plain_replicate n)
        (convert_plain hconversion _) (hfilled _)
      rwa [String.toList_ofList] at hgiven
    have hprecision : f.precision = none := by
      rcases Option.eq_none_or_eq_some f.precision with hnone | ⟨p, hp⟩
      · exact hnone
      -- an id longer than the precision and the width is cut
      · rcases hgives (max p (f.width.getD 0)) with ⟨-, -, hfits⟩ | ⟨p', hp', -, hcut⟩
        · have := hfits p hp
          simp only [List.length_replicate] at this
          omega
        · obtain rfl := Option.some.inj (hp.symm.trans hp')
          have hle := f.leftFill_le (f.width.getD 0 - p)
          have hlength := congrArg List.length hcut
          simp only [List.length_append, List.length_replicate, List.length_take] at hlength
          omega
    refine ⟨hconversion, f, hspec.1, hprecision, ?_⟩
    -- an id of one character would be filled up to the width
    rcases hgives 0 with ⟨-, hfits, -⟩ | ⟨p, hp, -⟩
    · exact hfits
    · rw [hprecision] at hp
      cases hp
  · rintro ⟨hconversion, f', hf', hprecision, hwidth⟩ w value' f'' hplain hvalue' hf''
    obtain rfl := Except.ok.inj (hf'.symm.trans ((filledSpec_static hstatic w f'').mp hf'').1)
    obtain rfl := Except.ok.inj ((convert_plain hconversion _).symm.trans hvalue')
    refine .inl ⟨rfl, hwidth.trans ?_, fun p hp => ?_⟩
    · exact List.length_pos_iff.mpr (plain_safe hplain).1
    · rw [hprecision] at hp
      cases hp

end Apart

/-- **Which templates keep secrets apart.** A provider that was constructed has one field in its
template. Its workspaces are kept apart exactly when the conversion and the format specification of
the field, filled in for each id, leave that id as it is; and where the specification has no fields
in it, exactly when there is no conversion but `!s`, no precision, and no width above one. -/
theorem secretsApart_iff (py : OpenBaoLib) (given p : OpenBaoSecretProvider)
    (h : OpenBaoSecretProvider.init py given = .ok p) :
    ∃ field, (parseMarkup p.pathTemplate.toList).1.filterMap (·.field) = [field] ∧
      (SecretsApart py p ↔ KeepsIds py field) ∧
      ('{' ∉ field.spec → (SecretsApart py p ↔ IsVerbatim py field)) := by
  obtain ⟨⟨chunks, field, haccepted⟩, hslash, hmount⟩ := init_ok h
  have hkeeps := secretsApart_iff_keepsIds haccepted hslash hmount
  refine ⟨field, ?_, hkeeps, fun hstatic => hkeeps.trans (keepsIds_iff_isVerbatim haccepted hstatic)⟩
  rw [haccepted.parsed]
  exact haccepted.single

/-- A library without attributes, in which no character beyond ASCII is a digit or printable. -/
def asciiLib : OpenBaoLib where
  isPrintable _ := false
  setOrder := id
  setOrder_perm xs _ := .refl xs
  decimal c := if c.isDigit then some (c.toNat - '0'.toNat) else none
  decimal_ascii _ _ := rfl
  lookup _ _ _ := .error (.lookup "AttributeError" "")
  urlparse _ := .ok ⟨none, none, "", ""⟩
  reprFloat _ := ""

/-- A provider with a template of its own. -/
def providerWith (pathTemplate : String) : OpenBaoSecretProvider :=
  { endpoint := "https://bao", token := "t", pathTemplate }

/-- The default template keeps workspaces apart. -/
theorem secretsApart_iff_default :
    ∃ p, OpenBaoSecretProvider.init asciiLib
      (providerWith "claw/workspaces/\x7bworkspace_id\x7d") = .ok p ∧ SecretsApart asciiLib p := by
  refine ⟨_, rfl, ?_⟩
  obtain ⟨field, hfield, -, hstatic⟩ := secretsApart_iff asciiLib
    (providerWith "claw/workspaces/\x7bworkspace_id\x7d") _ rfl
  have hown : field = ⟨"workspace_id".toList, none, []⟩ := by
    refine List.singleton_injective (hfield.symm.trans ?_)
    decide +kernel
  subst hown
  exact (hstatic List.not_mem_nil).mpr ⟨.inl rfl, {}, rfl, rfl, Nat.zero_le _⟩

/-- A precision in the template is accepted, and two workspaces are given one path. -/
theorem secrets_confused_by_precision :
    ∃ p, OpenBaoSecretProvider.init asciiLib (providerWith "claw/\x7bworkspace_id:.3\x7d") = .ok p ∧
      p.requestPath asciiLib "team-a" = .ok "/v1/secret/data/claw/tea" ∧
      p.requestPath asciiLib "team-b" = .ok "/v1/secret/data/claw/tea" ∧
      ¬ SecretsApart asciiLib p := by
  refine ⟨_, rfl, rfl, rfl, fun hapart => ?_⟩
  exact hapart.apart "team-a" "team-b" _ _ (by decide) rfl rfl rfl

end ClawEngine.Secrets
