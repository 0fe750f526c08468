import ClawEngine.Persistence.Construction

/-!
# The names that reach the DDL

A table prefix and a schema are interpolated into the names of the tables. The checks of the
constructor end their patterns in `$`, which also matches before a last newline: besides the
documented names they accept those with one newline after them, and nothing else.
-/

set_option autoImplicit false

namespace ClawEngine.Persistence

open ClawEngine.Core

/-! ## Documented names -/

/-- A text of characters from `[A-Za-z0-9_]` that does not start with a digit. -/
structure IsName (s : String) : Prop where
  chars : ∀ c ∈ s.toList, isNameRest c = true
  start : ∀ c, s.toList.head? = some c → c.isDigit = false

/-- `s.lower()` of an ASCII text. -/
def asciiLower (s : String) : String := String.ofList (s.toList.map Char.toLower)

/-- What the documentation allows as a table prefix. -/
def DocumentedPrefix (s : String) : Prop := IsName s ∧ s.length ≤ 32

/-- What the documentation allows as a schema. -/
def DocumentedSchema (s : String) : Prop :=
  IsName s ∧ 2 ≤ s.length ∧ asciiLower s ∉ sqlKeywords

/-- A name of at most 31 characters with a newline after it. -/
def PrefixWithNewline (s : String) : Prop :=
  ∃ w, s = w ++ "\n" ∧ IsName w ∧ 1 ≤ w.length ∧ w.length ≤ 31

/-- A name of at least two characters with a newline after it. -/
def SchemaWithNewline (s : String) : Prop := ∃ w, s = w ++ "\n" ∧ IsName w ∧ 2 ≤ w.length

section Characters

variable {c : Char}

theorem isAlpha_iff : c.isAlpha = true ↔
    (65 ≤ c.toNat ∧ c.toNat ≤ 90) ∨ (97 ≤ c.toNat ∧ c.toNat ≤ 122) := by
  have hletter : c.isAlpha = (decide (c.val ≥ 65 ∧ c.val ≤ 90) ||
      (decide (c.val ≥ 97) && decide (c.val ≤ 122))) := rfl
  rw [hletter]
  simp only [Bool.or_eq_true, Bool.and_eq_true, decide_eq_true_eq, ge_iff_le,
    UInt32.le_iff_toNat_le]
  rfl

theorem isDigit_iff : c.isDigit = true ↔ 48 ≤ c.toNat ∧ c.toNat ≤ 57 := by
  simp only [Char.isDigit, Bool.and_eq_true, decide_eq_true_eq, ge_iff_le, UInt32.le_iff_toNat_le]
  rfl

theorem isNameStart_iff : isNameStart c = true ↔ isNameRest c = true ∧ c.isDigit = false := by
  simp only [isNameStart, isNameRest, Char.isAlphanum, Bool.or_eq_true, beq_iff_eq,
    ← Bool.not_eq_true]
  constructor
  · rintro (halpha | rfl)
    · refine ⟨.inl (.inl halpha), fun hdigit => ?_⟩
      have := isAlpha_iff.mp halpha
      have := isDigit_iff.mp hdigit
      omega
    · exact ⟨.inr rfl, by decide⟩
  · rintro ⟨(halpha | hdigit) | hunderscore, hno⟩
    · exact .inl halpha
    · exact absurd hdigit hno
    · exact .inr hunderscore

theorem isNameRest_ascii (h : isNameRest c = true) : c.toNat < 128 := by
  simp only [isNameRest, Char.isAlphanum, Bool.or_eq_true, beq_iff_eq] at h
  rcases h with (halpha | hdigit) | rfl
  · have := isAlpha_iff.mp halpha
    omega
  · have := isDigit_iff.mp hdigit
    omega
  · decide

end Characters

/-- A name with at least one character is a first character and others. -/
theorem isName_cons {c : Char} {cs : List Char} :
    IsName (String.ofList (c :: cs)) ↔ isNameStart c = true ∧ ∀ d ∈ cs, isNameRest d = true := by
  rw [isNameStart_iff]
  constructor
  · rintro ⟨hchars, hstart⟩
    rw [String.toList_ofList] at hchars hstart
    exact ⟨⟨hchars c List.mem_cons_self, hstart c rfl⟩,
      fun d hd => hchars d (List.mem_cons_of_mem _ hd)⟩
  · rintro ⟨⟨hc, hdigit⟩, hcs⟩
    refine ⟨?_, ?_⟩ <;> rw [String.toList_ofList]
    · exact List.forall_mem_cons.mpr ⟨hc, hcs⟩
    · rintro d hd
      cases hd
      exact hdigit

/-! ## What the patterns match -/

section Patterns

variable {s : String} {n : Nat}

/-- A name of at least `n` characters, or one with a newline after it. -/
def NameLine (n : Nat) (s : String) : Prop :=
  ∃ w, IsName w ∧ n ≤ w.length ∧ (s = w ∨ s = w ++ "\n")

theorem toList_newline (w : String) : (w ++ "\n").toList = w.toList ++ ['\n'] :=
  String.toList_append

theorem nameLine_iff (hn : 1 ≤ n) : NameLine n s ↔ ∃ c pre post, s.toList = c :: (pre ++ post) ∧
    isNameStart c = true ∧ (∀ d ∈ pre, isNameRest d = true) ∧ (post = [] ∨ post = ['\n']) ∧
      n ≤ pre.length + 1 := by
  constructor
  · rintro ⟨w, hname, hlength, hs⟩
    rw [← String.length_toList] at hlength
    rw [← String.ofList_toList (s := w)] at hname
    rcases hw : w.toList with _ | ⟨c, pre⟩
    · rw [hw, List.length_nil] at hlength
      omega
    · rw [hw] at hname hlength
      obtain ⟨hc, hpre⟩ := isName_cons.mp hname
      rcases hs with rfl | rfl
      · exact ⟨c, pre, [], by rw [hw, List.append_nil], hc, hpre, .inl rfl, hlength⟩
      · exact ⟨c, pre, ['\n'], by rw [toList_newline, hw, List.cons_append], hc, hpre, .inr rfl,
          hlength⟩
  · rintro ⟨c, pre, post, hs, hc, hpre, hpost, hlength⟩
    refine ⟨String.ofList (c :: pre), isName_cons.mpr ⟨hc, hpre⟩, ?_, ?_⟩
    · rw [String.length_ofList]
      exact hlength
    · rcases hpost with rfl | rfl
      · refine .inl (String.toList_injective ?_)
        rw [hs, String.toList_ofList, List.append_nil]
      · refine .inr (String.toList_injective ?_)
        rw [hs, toList_newline, String.toList_ofList, List.cons_append]

/-- **`_TABLE_PREFIX_RE`** matches the names with at least one character, and each of them with a
newline after it. -/
theorem tablePrefixRe_iff : Regex.isMatch tablePrefixRe s = true ↔ NameLine 1 s := by
  rw [Regex.isMatch, tablePrefixRe, Regex.matchFrom_caret, Regex.matchFrom, Regex.oneThen_iff,
    nameLine_iff (Nat.le_refl _)]
  constructor
  · rintro ⟨c, cs, hs, hc, hcs⟩
    obtain ⟨pre, post, rfl, hpre, hpost⟩ := Regex.manyThen_iff.mp hcs
    exact ⟨c, pre, post, hs, hc, hpre, Regex.matchFrom_dollar.mp hpost, Nat.le_add_left _ _⟩
  · rintro ⟨c, pre, post, hs, hc, hpre, hpost, -⟩
    refine ⟨c, pre ++ post, hs, hc, Regex.manyThen_iff.mpr ⟨pre, post, rfl, hpre, ?_⟩⟩
    exact Regex.matchFrom_dollar.mpr hpost

/-- **`_SCHEMA_NAME_RE`** matches the names with at least two characters, and each of them with a
newline after it. -/
theorem schemaNameRe_iff : Regex.isMatch schemaNameRe s = true ↔ NameLine 2 s := by
  rw [Regex.isMatch, schemaNameRe, Regex.matchFrom_caret, Regex.matchFrom, Regex.oneThen_iff,
    nameLine_iff (Nat.le_succ 1)]
  constructor
  · rintro ⟨c, cs, hs, hc, hcs⟩
    obtain ⟨d, ds, rfl, hd, hds⟩ := Regex.oneThen_iff.mp hcs
    obtain ⟨pre, post, rfl, hpre, hpost⟩ := Regex.manyThen_iff.mp hds
    refine ⟨c, d :: pre, post, hs, hc, List.forall_mem_cons.mpr ⟨hd, hpre⟩,
      Regex.matchFrom_dollar.mp hpost, ?_⟩
    rw [List.length_cons]
    omega
  · rintro ⟨c, pre, post, hs, hc, hpre, hpost, hlength⟩
    rcases pre with _ | ⟨d, pre⟩
    · rw [List.length_nil] at hlength
      omega
    · obtain ⟨hd, hpre⟩ := List.forall_mem_cons.mp hpre
      refine ⟨c, d :: (pre ++ post), hs, hc, Regex.oneThen_iff.mpr ⟨d, pre ++ post, rfl, hd, ?_⟩⟩
      exact Regex.manyThen_iff.mpr ⟨pre, post, rfl, hpre, Regex.matchFrom_dollar.mpr hpost⟩

end Patterns

/-! ## What the constructor accepts -/

section Accepted

variable {py : DsnLib} {s url : String} {schema : Option String} {tablePrefix : String}

theorem raiseIf_eq_ok {refused : Bool} {text : String} :
    raiseIf refused text = .ok () ↔ refused = false := by
  cases refused with
  | false => exact iff_of_true rfl rfl
  | true => exact iff_of_false nofun nofun

theorem check_bind_eq_ok {x : Except String Unit} {f : Unit → Except String Unit} :
    (x >>= f) = .ok () ↔ x = .ok () ∧ f () = .ok () := by
  cases x with
  | error e => exact iff_of_false nofun fun h => nomatch h.1
  | ok u => exact (and_iff_right rfl).symm

/-- A name has no newline in it. -/
theorem IsName.no_newline (h : IsName s) : '\n' ∉ s.toList := fun hmem => by
  have hrest := h.chars '\n' hmem
  revert hrest
  decide

theorem not_isName_newline (w : String) : ¬ IsName (w ++ "\n") := fun h =>
  h.no_newline (by rw [toList_newline]; exact List.mem_append_right _ List.mem_cons_self)

/-- **The accepted table prefixes.** -/
theorem validateTablePrefix_eq_ok :
    validateTablePrefix py s = .ok () ↔ DocumentedPrefix s ∨ PrefixWithNewline s := by
  unfold validateTablePrefix
  rw [check_bind_eq_ok, raiseIf_eq_ok, raiseIf_eq_ok, decide_eq_false_iff_not, Nat.not_lt,
    Bool.and_eq_false_iff, decide_eq_false_iff_not, not_not, Bool.not_eq_false', tablePrefixRe_iff]
  constructor
  · rintro ⟨rfl | ⟨w, hname, hpos, rfl | rfl⟩, hlength⟩
    · exact .inl ⟨⟨nofun, nofun⟩, hlength⟩
    · exact .inl ⟨hname, hlength⟩
    · rw [String.length_append] at hlength
      exact .inr ⟨w, rfl, hname, hpos, Nat.le_of_succ_le_succ hlength⟩
  · rintro (⟨hname, hlength⟩ | ⟨w, rfl, hname, hpos, hlength⟩)
    · refine ⟨?_, hlength⟩
      rcases Nat.eq_zero_or_pos s.length with hzero | hpos
      · exact .inl (String.length_eq_zero_iff.mp hzero)
      · exact .inr ⟨s, hname, hpos, .inl rfl⟩
    · refine ⟨.inr ⟨w, hname, hpos, .inr rfl⟩, ?_⟩
      rw [String.length_append]
      exact Nat.succ_le_succ hlength

theorem sqlKeywords_no_newline : ∀ k ∈ sqlKeywords, '\n' ∉ k.toList := by decide

/-- What is matched is lowered as ASCII is. -/
theorem lower_nameLine {n : Nat} (h : NameLine n s) : py.lower s = asciiLower s := by
  refine py.lower_ascii s fun c hc => ?_
  obtain ⟨w, hname, -, rfl | rfl⟩ := h
  · exact isNameRest_ascii (hname.chars c hc)
  · rw [toList_newline] at hc
    rcases List.mem_append.mp hc with hc | hc
    · exact isNameRest_ascii (hname.chars c hc)
    · obtain rfl := List.mem_singleton.mp hc
      decide

/-- **The accepted schemas.** -/
theorem validateSchema_eq_ok :
    validateSchema py s = .ok () ↔ DocumentedSchema s ∨ SchemaWithNewline s := by
  unfold validateSchema
  rw [check_bind_eq_ok, raiseIf_eq_ok, raiseIf_eq_ok, decide_eq_false_iff_not, Bool.not_eq_false',
    schemaNameRe_iff]
  constructor
  · rintro ⟨hline, hkeyword⟩
    rw [lower_nameLine hline] at hkeyword
    obtain ⟨w, hname, hlength, rfl | rfl⟩ := hline
    · exact .inl ⟨hname, hlength, hkeyword⟩
    · exact .inr ⟨w, rfl, hname, hlength⟩
  · rintro (⟨hname, hlength, hkeyword⟩ | ⟨w, rfl, hname, hlength⟩)
    · have hline : NameLine 2 s := ⟨s, hname, hlength, .inl rfl⟩
      exact ⟨hline, by rw [lower_nameLine hline]; exact hkeyword⟩
    · have hline : NameLine 2 (w ++ "\n") := ⟨w, hname, hlength, .inr rfl⟩
      refine ⟨hline, fun hkeyword => ?_⟩
      rw [lower_nameLine hline] at hkeyword
      -- No keyword has a newline in it.
      refine sqlKeywords_no_newline _ hkeyword ?_
      rw [asciiLower, String.toList_ofList, toList_newline, List.map_append]
      exact List.mem_append_right _ List.mem_cons_self

theorem not_documented_newline (w : String) :
    ¬ DocumentedPrefix (w ++ "\n") ∧ ¬ DocumentedSchema (w ++ "\n") :=
  ⟨fun h => not_isName_newline w h.1, fun h => not_isName_newline w h.1⟩

/-- What is accepted is what is documented exactly where nothing else is accepted. -/
theorem or_iff_self_iff {p q r : Prop} (h : p ↔ q ∨ r) (hapart : r → ¬ q) : (p ↔ q) ↔ ¬ r := by
  constructor
  · intro hpq hr
    exact hapart hr (hpq.mp (h.mpr (.inr hr)))
  · intro hr
    exact h.trans (or_iff_left hr)

/-- The checks of one call. -/
theorem validateConstructionArgs_eq_ok (hurl : validateUrl py url = .ok ()) :
    validateConstructionArgs py url schema tablePrefix = .ok () ↔
      validateTablePrefix py tablePrefix = .ok () ∧
        ∀ s, schema = some s → validateSchema py s = .ok () := by
  unfold validateConstructionArgs
  rw [check_bind_eq_ok, and_iff_right hurl, check_bind_eq_ok]
  refine and_congr_right fun _ => ?_
  cases schema with
  | none => exact iff_of_true rfl nofun
  | some s => exact ⟨fun h _ hs => Option.some.inj hs ▸ h, fun h => h s rfl⟩

/-- **The names that reach the DDL.** With a URL that is accepted: a table prefix is accepted exactly
if it is documented or is a name of at most 31 characters with a newline after it, and a schema
exactly if it is documented or is a name of at least two characters with a newline after it. So the
constructor does as documented exactly on the texts that are no such lines. -/
theorem constructed_names_iff (hurl : validateUrl py url = .ok ()) :
    (∀ schema tablePrefix, validateConstructionArgs py url schema tablePrefix = .ok () ↔
      (DocumentedPrefix tablePrefix ∨ PrefixWithNewline tablePrefix) ∧
        ∀ s, schema = some s → DocumentedSchema s ∨ SchemaWithNewline s) ∧
    (∀ tablePrefix, (validateConstructionArgs py url none tablePrefix = .ok () ↔
      DocumentedPrefix tablePrefix) ↔ ¬ PrefixWithNewline tablePrefix) ∧
    ∀ s, (validateConstructionArgs py url (some s) "" = .ok () ↔ DocumentedSchema s) ↔
      ¬ SchemaWithNewline s := by
  have hall : ∀ schema tablePrefix, validateConstructionArgs py url schema tablePrefix = .ok () ↔
      (DocumentedPrefix tablePrefix ∨ PrefixWithNewline tablePrefix) ∧
        ∀ s, schema = some s → DocumentedSchema s ∨ SchemaWithNewline s := by
    intro schema tablePrefix
    rw [validateConstructionArgs_eq_ok hurl, validateTablePrefix_eq_ok]
    exact and_congr_right fun _ => forall₂_congr fun s _ => validateSchema_eq_ok
  refine ⟨hall, fun tablePrefix => ?_, fun s => ?_⟩
  · refine or_iff_self_iff ((hall none tablePrefix).trans (and_iff_left nofun)) ?_
    rintro ⟨w, rfl, -⟩
    exact (not_documented_newline w).1
  · refine or_iff_self_iff ((hall (some s) "").trans ?_) ?_
    · rw [and_iff_right (.inl ⟨⟨nofun, nofun⟩, Nat.zero_le _⟩)]
      exact ⟨fun h => h s rfl, fun h _ hs => Option.some.inj hs ▸ h⟩
    · rintro ⟨w, rfl, -⟩
      exact (not_documented_newline w).2

end Accepted

/-! ## The names of the tables -/

theorem IsName.append {v w : String} (h : IsName v) (h' : IsName w) : IsName (v ++ w) := by
  refine ⟨fun c hc => ?_, fun c hc => ?_⟩ <;> rw [String.toList_append] at hc
  · exact (List.mem_append.mp hc).elim (h.chars c) (h'.chars c)
  · rw [List.head?_append] at hc
    rcases hhead : v.toList.head? with _ | d
    · rw [hhead, Option.none_or] at hc
      exact h'.start c hc
    · rw [hhead, Option.some_or] at hc
      exact h.start c (hhead.trans hc)

/-- The tests of `IsName`. -/
def isNameText (s : String) : Bool :=
  s.toList.all isNameRest && s.toList.head?.all fun c => !c.isDigit

theorem isNameText_iff {s : String} : isNameText s = true ↔ IsName s := by
  rw [isNameText, Bool.and_eq_true, List.all_eq_true]
  constructor
  · rintro ⟨hchars, hstart⟩
    refine ⟨hchars, fun c hc => ?_⟩
    rw [hc] at hstart
    exact Bool.not_eq_true' _ ▸ hstart
  · rintro ⟨hchars, hstart⟩
    refine ⟨hchars, ?_⟩
    cases hhead : s.toList.head? with
    | none => rfl
    | some c =>
      rw [Option.all_some, hstart c hhead]
      rfl

instance (s : String) : Decidable (IsName s) := decidable_of_iff _ isNameText_iff

/-- The names that the schema makes of a documented prefix are names. -/
theorem buildTables_names {tablePrefix : String} (h : IsName tablePrefix)
    (schema : Option String) :
    IsName (buildTables tablePrefix schema).sessions ∧
      IsName (buildTables tablePrefix schema).processedMessages ∧
      IsName (buildTables tablePrefix schema).uniqueConstraint := by
  have hnames : IsName "sessions" ∧ IsName "processed_messages" ∧ IsName "uq_" ∧
      IsName "sessions_natural_key" := by decide +kernel
  obtain ⟨hsessions, hprocessed, huq, hkey⟩ := hnames
  exact ⟨h.append hsessions, h.append hprocessed, (huq.append h).append hkey⟩

/-! ## Two constructions -/

/-- A library that parses `sqlite://`. -/
def sqliteLib : DsnLib where
  isPrintable _ := true
  setOrder := id
  setOrder_perm _ _ := .refl _
  makeUrl url := if url = "sqlite://" then .ok ⟨"sqlite", none, none, []⟩ else .error "ArgumentError"
  lower := asciiLower
  lower_ascii _ _ := rfl

/-- The default prefix is accepted. -/
theorem constructed_names_iff_default :
    validateConstructionArgs sqliteLib "sqlite://" none "claw_" = .ok () :=
  ((constructed_names_iff (by decide +kernel)).1 none "claw_").mpr
    ⟨.inl ⟨by decide +kernel, by decide⟩, nofun⟩

/-- So are a prefix and a schema that end in a newline, which goes into the names of the tables. -/
theorem newline_accepted :
    validateConstructionArgs sqliteLib "sqlite://" (some "public\n") "claw_\n" = .ok () ∧
      ¬ DocumentedPrefix "claw_\n" ∧ ¬ DocumentedSchema "public\n" ∧
      (buildTables "claw_\n" (some "public\n")).sessions = "claw_\nsessions" :=
  ⟨by decide +kernel, (not_documented_newline "claw_").1, (not_documented_newline "public").2, rfl⟩

end ClawEngine.Persistence
