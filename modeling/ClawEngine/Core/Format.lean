import ClawEngine.Core.PyText
import ClawEngine.Core.Outcome

/-!
# str.format

Python's format strings on lists of characters: the markup (`string.Formatter.parse`), the format
specifications of texts, and `str.format`. What depends on the interpreter is in `FormatLib`: which
characters are decimal digits, and the objects that attribute and item lookups in a field name give.

A text is parsed one chunk at a time, the literal text up to a field and the field. The fuel of
`parseChunks` is the length of the text, and every chunk takes characters (`parseMarkup_eq`).
-/

set_option autoImplicit false

namespace ClawEngine.Core

/-! ## Errors -/

/-- What is wrong with the markup of a format string. -/
inductive MarkupError
  | singleOpen | singleClose | openInName | unclosedName | endBeforeConversion | colonExpected
  | unclosedSpec
  deriving DecidableEq, Repr

/-- `str(exc)`. -/
def MarkupError.text : MarkupError → String
  | .singleOpen => "Single '\x7b' encountered in format string"
  | .singleClose => "Single '\x7d' encountered in format string"
  | .openInName => "unexpected '\x7b' in field name"
  | .unclosedName => "expected '\x7d' before end of string"
  | .endBeforeConversion => "end of string while looking for conversion specifier"
  | .colonExpected => "expected ':' after conversion specifier"
  | .unclosedSpec => "unmatched '\x7b' in format spec"

/-- What is wrong with the format specification of a text, or with a conversion. -/
inductive SpecError
  | invalidSpecifier | tooManyDigits | missingPrecision | separators | unknownCode (code : Char)
  | signNotAllowed | zeroCoercionNotAllowed | alternateNotAllowed | equalsNotAllowed
  | unknownConversion (conversion : Char)
  | maxRecursion
  deriving DecidableEq, Repr

/-- The exceptions of `str.format`. -/
inductive FormatError
  | markup (e : MarkupError)
  | spec (e : SpecError)
  | keyError (key : List Char)
  | indexError
  | lookup (className text : String)
  deriving DecidableEq, Repr

/-! ## Markup -/

/-- A replacement field: its name, its conversion and its format specification. -/
structure Field where
  name : List Char
  conversion : Option Char
  spec : List Char
  deriving DecidableEq, Repr

/-- Literal text, and the field after it. -/
structure Chunk where
  literal : List Char
  field : Option Field
  deriving DecidableEq, Repr

/-- A field name: the name, the character that ends it, and what is left. Between brackets every
character but the closing one belongs to the name. -/
def scanName : (bracket : Bool) → List Char → Except MarkupError (List Char × Char × List Char)
  | _, [] => .error .unclosedName
  | true, c :: cs => (scanName (c ≠ ']') cs).map fun (name, ender, rest) => (c :: name, ender, rest)
  | false, c :: cs =>
    if c = '{' then .error .openInName
    else if c = '}' ∨ c = ':' ∨ c = '!' then .ok ([], c, cs)
    else (scanName (c = '[') cs).map fun (name, ender, rest) => (c :: name, ender, rest)

/-- A format specification, up to the brace that closes the field; `depth` braces are open in it. -/
def scanSpec : (depth : Nat) → List Char → Except MarkupError (List Char × List Char)
  | _, [] => .error .unclosedSpec
  | depth, c :: cs =>
    if c = '{' then (scanSpec (depth + 1) cs).map fun (spec, rest) => (c :: spec, rest)
    else if c = '}' then
      match depth with
      | 0 => .ok ([], cs)
      | depth + 1 => (scanSpec depth cs).map fun (spec, rest) => (c :: spec, rest)
    else (scanSpec depth cs).map fun (spec, rest) => (c :: spec, rest)

/-- A replacement field, after its opening brace. -/
def parseField (text : List Char) : Except MarkupError (Field × List Char) := do
  let (name, ender, rest) ← scanName false text
  if ender = '}' then return (⟨name, none, []⟩, rest)
  else if ender = ':' then
    let (spec, rest) ← scanSpec 0 rest
    return (⟨name, none, spec⟩, rest)
  else
    match rest with
    | [] => .error .endBeforeConversion
    | [_] => .error .unclosedSpec
    | conversion :: c :: rest =>
      if c = '}' then return (⟨name, some conversion, []⟩, rest)
      else if c = ':' then
        let (spec, rest) ← scanSpec 0 rest
        return (⟨name, some conversion, spec⟩, rest)
      else .error .colonExpected

/-- The next chunk. A doubled brace stands for one, and ends the chunk. -/
def nextChunk : List Char → Except MarkupError (Chunk × List Char)
  | [] => .ok (⟨[], none⟩, [])
  | c :: cs =>
    if c = '{' then
      match cs with
      | [] => .error .singleOpen
      | c' :: rest =>
        if c' = '{' then .ok (⟨[c], none⟩, rest)
        else (parseField cs).map fun (field, rest) => (⟨[], some field⟩, rest)
    else if c = '}' then
      match cs with
      | [] => .error .singleClose
      | c' :: rest => if c' = '}' then .ok (⟨[c], none⟩, rest) else .error .singleClose
    else (nextChunk cs).map fun (chunk, rest) => ({ chunk with literal := c :: chunk.literal }, rest)

/-- The chunks of a format string, and the error their iterator ends with. -/
def parseChunks : (fuel : Nat) → List Char → List Chunk × Option MarkupError
  | 0, _ => ([], none)
  | _ + 1, [] => ([], none)
  | fuel + 1, c :: cs =>
    match nextChunk (c :: cs) with
    | .error e => ([], some e)
    | .ok (chunk, rest) => (chunk :: (parseChunks fuel rest).1, (parseChunks fuel rest).2)

/-- `string.Formatter().parse(text)`. -/
def parseMarkup (text : List Char) : List Chunk × Option MarkupError := parseChunks text.length text

section Scan

variable {text rest : List Char}

theorem scanName_length {bracket : Bool} {name : List Char} {ender : Char}
    (h : scanName bracket text = .ok (name, ender, rest)) : rest.length < text.length := by
  induction text generalizing bracket name with
  | nil =>
    cases bracket <;> cases h
  | cons c cs ih =>
    cases bracket with
    | true =>
      obtain ⟨⟨name', ender', rest'⟩, hscan, heq⟩ := map_eq_ok.mp h
      cases heq
      exact Nat.lt_succ_of_lt (ih hscan)
    | false =>
      unfold scanName at h
      split at h
      · cases h
      · split at h
        · cases h
          exact Nat.lt_succ_self _
        · obtain ⟨⟨name', ender', rest'⟩, hscan, heq⟩ := map_eq_ok.mp h
          cases heq
          exact Nat.lt_succ_of_lt (ih hscan)

theorem scanSpec_length {depth : Nat} {spec : List Char}
    (h : scanSpec depth text = .ok (spec, rest)) : rest.length < text.length := by
  have hmap : ∀ {depth : Nat} {c : Char} {cs spec : List Char},
      (∀ {depth : Nat} {spec : List Char}, scanSpec depth cs = .ok (spec, rest) →
        rest.length < cs.length) →
      (scanSpec depth cs).map (fun (spec, rest) => (c :: spec, rest)) = .ok (spec, rest) →
      rest.length < (c :: cs).length := by
    intro depth c cs spec ih hscan
    obtain ⟨⟨spec', rest'⟩, hscan, heq⟩ := map_eq_ok.mp hscan
    cases heq
    exact Nat.lt_succ_of_lt (ih hscan)
  induction text generalizing depth spec with
  | nil => cases h
  | cons c cs ih =>
    unfold scanSpec at h
    split at h
    · exact hmap ih h
    · split at h
      · split at h
        · cases h
          exact Nat.lt_succ_self _
        · exact hmap ih h
      · exact hmap ih h

theorem parseField_length {field : Field} (h : parseField text = .ok (field, rest)) :
    rest.length < text.length := by
  obtain ⟨⟨name, ender, left⟩, hname, h⟩ := except_bind_eq_ok.mp h
  have hleft := scanName_length hname
  dsimp only at h
  split at h
  · cases h
    exact hleft
  · split at h
    · obtain ⟨⟨spec, left'⟩, hspec, h⟩ := except_bind_eq_ok.mp h
      cases h
      exact Nat.lt_trans (scanSpec_length hspec) hleft
    · split at h
      · cases h
      · cases h
      · split at h
        · cases h
          simp only [List.length_cons] at hleft
          omega
        · split at h
          · obtain ⟨⟨spec, left'⟩, hspec, h⟩ := except_bind_eq_ok.mp h
            have hspec := scanSpec_length hspec
            cases h
            simp only [List.length_cons] at hleft hspec ⊢
            omega
          · cases h

theorem nextChunk_length {chunk : Chunk} (hne : text ≠ [])
    (h : nextChunk text = .ok (chunk, rest)) : rest.length < text.length := by
  induction text generalizing chunk with
  | nil => exact absurd rfl hne
  | cons c cs ih =>
    unfold nextChunk at h
    split at h
    · split at h
      · cases h
      · split at h
        · cases h
          simp only [List.length_cons]
          omega
        · obtain ⟨⟨field, left⟩, hfield, heq⟩ := map_eq_ok.mp h
          cases heq
          exact Nat.lt_succ_of_lt (parseField_length hfield)
    · split at h
      · split at h
        · cases h
        · split at h
          · cases h
            simp only [List.length_cons]
            omega
          · cases h
      · obtain ⟨⟨chunk', left⟩, hnext, heq⟩ := map_eq_ok.mp h
        cases heq
        by_cases hcs : cs = []
        · subst hcs
          cases hnext
          exact Nat.lt_succ_self _
        · exact Nat.lt_succ_of_lt (ih hcs hnext)

/-- Any two fuels that are at least the length make no difference. -/
theorem parseChunks_fuel {fuel fuel' : Nat} (h : text.length ≤ fuel) (h' : text.length ≤ fuel') :
    parseChunks fuel text = parseChunks fuel' text := by
  induction fuel generalizing fuel' text with
  | zero =>
    obtain rfl := List.length_eq_zero_iff.mp (Nat.le_zero.mp h)
    cases fuel' <;> rfl
  | succ fuel ih =>
    cases text with
    | nil => cases fuel' <;> rfl
    | cons c cs =>
      obtain ⟨fuel', rfl⟩ := Nat.exists_eq_add_one.mpr (Nat.lt_of_lt_of_le (Nat.succ_pos _) h')
      simp only [parseChunks]
      cases hnext : nextChunk (c :: cs) with
      | error e => rfl
      | ok out =>
        obtain ⟨chunk, rest⟩ := out
        have hrest := nextChunk_length (List.cons_ne_nil _ _) hnext
        simp only [List.length_cons] at h h' hrest
        dsimp only
        have hfuel : rest.length ≤ fuel := by omega
        have hfuel' : rest.length ≤ fuel' := by omega
        rw [ih hfuel hfuel']

/-- **The chunks of a text**: its next chunk, and the chunks of what is left. -/
theorem parseMarkup_eq (text : List Char) : parseMarkup text =
    if text = [] then ([], none)
    else
      match nextChunk text with
      | .error e => ([], some e)
      | .ok (chunk, rest) => (chunk :: (parseMarkup rest).1, (parseMarkup rest).2) := by
  cases text with
  | nil => rfl
  | cons c cs =>
    rw [if_neg (List.cons_ne_nil _ _)]
    simp only [parseMarkup, List.length_cons, parseChunks]
    cases hnext : nextChunk (c :: cs) with
    | error e => rfl
    | ok out =>
      obtain ⟨chunk, rest⟩ := out
      have hrest := nextChunk_length (List.cons_ne_nil _ _) hnext
      dsimp only
      rw [parseChunks_fuel (Nat.le_of_lt_succ hrest) (Nat.le_refl _)]

end Scan

/-! ## Format specifications -/

/-- What formatting uses of the interpreter beside its tables: `decimal` is the value of a character
as a decimal digit, and `lookup` the object that the attribute and item lookups of a field name give
from a text, converted, as its `__format__`. -/
structure FormatLib extends Interpreter where
  decimal : Char → Option Nat
  decimal_ascii : ∀ c : Char, c.toNat < 128 →
    decimal c = if c.isDigit then some (c.toNat - '0'.toNat) else none
  lookup : (value lookups : List Char) → (conversion : Option Char) →
    Except FormatError (List Char → Except FormatError (List Char))

/-- `repr(s)`, on characters. -/
def reprChars (py : Interpreter) (s : List Char) : List Char :=
  (reprStr py (String.ofList s)).toList

/-- `ascii(s)`: `repr`, with nothing beyond ASCII printable. -/
def asciiChars (py : Interpreter) (s : List Char) : List Char :=
  reprChars { py with isPrintable := fun _ => false } s

/-- The conversion of a text. -/
def convert (py : Interpreter) : Option Char → List Char → Except FormatError (List Char)
  | none, s => .ok s
  | some c, s =>
    if c = 'r' then .ok (reprChars py s)
    else if c = 's' then .ok s
    else if c = 'a' then .ok (asciiChars py s)
    else .error (.spec (.unknownConversion c))

/-- `repr` puts two quotes around a text, and shortens no character. -/
theorem length_reprChars (py : Interpreter) (s : List Char) :
    s.length < (reprChars py s).length := by
  simp only [reprChars, reprStr, String.toList_ofList, List.length_append, List.length_cons,
    List.length_nil]
  have hflat := length_flatMap_reprChar py (if '\'' ∈ s ∧ '"' ∉ s then '"' else '\'') s
  omega

theorem length_convert {py : Interpreter} {conversion : Option Char} {s value : List Char}
    (h : convert py conversion s = .ok value) : s.length ≤ value.length := by
  cases conversion with
  | none =>
    obtain rfl := Except.ok.inj h
    exact Nat.le_refl _
  | some c =>
    simp only [convert] at h
    split_ifs at h with hr hs ha
    · rw [← Except.ok.inj h]
      exact Nat.le_of_lt (length_reprChars _ _)
    · exact Nat.le_of_eq (congrArg List.length (Except.ok.inj h))
    · rw [← Except.ok.inj h]
      exact Nat.le_of_lt (length_reprChars _ _)

/-- The parts of a format specification. -/
structure FormatSpec where
  fill : Char := ' '
  align : Char := '<'
  sign : Bool := false
  zeroCoercion : Bool := false
  alternate : Bool := false
  width : Option Nat := none
  separators : Bool := false
  precision : Option Nat := none
  type : Char := 's'
  deriving DecidableEq, Repr

/-- The largest number a width or a precision can be (`sys.maxsize`). -/
def maxFormatNumber : Nat := 9223372036854775807

def isAlignment (c : Char) : Bool := c = '<' || c = '>' || c = '=' || c = '^'

def isSign (c : Char) : Bool := c = ' ' || c = '+' || c = '-'

/-- `[[fill]align]`: the fill, the alignment, and what is left. -/
def scanAlign : List Char → Option Char × Option Char × List Char
  | [] => (none, none, [])
  | [c] => if isAlignment c then (none, some c, []) else (none, none, [c])
  | c :: c' :: cs =>
    if isAlignment c' then (some c, some c', cs)
    else if isAlignment c then (none, some c, c' :: cs)
    else (none, none, c :: c' :: cs)

/-- One optional character: whether it is there, and what is left. -/
def scanFlag (p : Char → Bool) : List Char → Bool × List Char
  | [] => (false, [])
  | c :: cs => if p c then (true, cs) else (false, c :: cs)

/-- The digits of a number after those read so far, `none` when there are none at all. -/
def scanInteger (lib : FormatLib) : (read : Option Nat) → List Char →
    Except FormatError (Option Nat × List Char)
  | read, [] => .ok (read, [])
  | read, c :: cs =>
    match lib.decimal c with
    | none => .ok (read, c :: cs)
    | some digit =>
      let n := read.getD 0 * 10 + digit
      if n > maxFormatNumber then .error (.spec .tooManyDigits) else scanInteger lib (some n) cs

/-- `[.precision]`. -/
def scanPrecision (lib : FormatLib) (cs : List Char) :
    Except FormatError (Option Nat × List Char) := do
  let (dot, rest) := scanFlag (· = '.') cs
  if dot then
    let (precision, rest) ← scanInteger lib none rest
    if precision = none then .error (.spec .missingPrecision) else return (precision, rest)
  else return (none, rest)

/-- The type, which is all that may be left. -/
def scanType : List Char → Except FormatError Char
  | [] => .ok 's'
  | [c] => .ok c
  | _ => .error (.spec .invalidSpecifier)

/-- A format specification, read for a text. A zero before the width is its fill, unless one is
given. -/
def parseSpec (lib : FormatLib) (text : List Char) : Except FormatError FormatSpec := do
  let (fill, align, rest) := scanAlign text
  let (sign, rest) := scanFlag isSign rest
  let (zeroCoercion, rest) := scanFlag (· = 'z') rest
  let (alternate, rest) := scanFlag (· = '#') rest
  let (zero, rest) := scanFlag (fun c => c = '0' && fill = none) rest
  let (width, rest) ← scanInteger lib none rest
  let (comma, rest) := scanFlag (· = ',') rest
  let (underscore, rest) := scanFlag (· = '_') rest
  let (precision, rest) ← scanPrecision lib rest
  let type ← scanType rest
  if comma && underscore then .error (.spec .separators)
  else return {
    fill := fill.getD (if zero then '0' else ' '), align := align.getD '<', sign, zeroCoercion
    alternate, width, separators := comma || underscore, precision, type }

/-- The specifications that are not for texts are refused. -/
def FormatSpec.check (f : FormatSpec) : Except FormatError Unit :=
  if f.separators then .error (.spec .separators)
  else if f.type ≠ 's' then .error (.spec (.unknownCode f.type))
  else if f.sign then .error (.spec .signNotAllowed)
  else if f.zeroCoercion then .error (.spec .zeroCoercionNotAllowed)
  else if f.alternate then .error (.spec .alternateNotAllowed)
  else if f.align = '=' then .error (.spec .equalsNotAllowed)
  else .ok ()

/-- What the precision leaves of a text. -/
def FormatSpec.kept (f : FormatSpec) (value : List Char) : List Char :=
  match f.precision with
  | none => value
  | some p => value.take p

/-- How many of `missing` fill characters stand on the left. -/
def FormatSpec.leftFill (f : FormatSpec) (missing : Nat) : Nat :=
  if f.align = '>' then missing else if f.align = '^' then missing / 2 else 0

/-- A text, cut to the precision and filled up to the width. -/
def FormatSpec.apply (f : FormatSpec) (value : List Char) : List Char :=
  let missing := f.width.getD 0 - (f.kept value).length
  List.replicate (f.leftFill missing) f.fill ++ f.kept value ++
    List.replicate (missing - f.leftFill missing) f.fill

/-- `format(value, spec)`. -/
def formatText (lib : FormatLib) (value spec : List Char) : Except FormatError (List Char) := do
  let f ← parseSpec lib spec
  f.check
  return f.apply value

/-! ## Format strings -/

/-- The arguments of `str.format`, by their keys. -/
abbrev FormatArgs := List Char → Option (List Char)

/-- A field name, up to its first lookup. -/
def splitName (name : List Char) : List Char × List Char :=
  name.span fun c => c ≠ '.' && c ≠ '['

/-- The value of a field, converted, as its `__format__`. A name that is empty or a number is the
index of an argument by position, and there are none. -/
def fieldValue (lib : FormatLib) (args : FormatArgs) (field : Field) :
    Except FormatError (List Char → Except FormatError (List Char)) :=
  let (first, lookups) := splitName field.name
  match scanInteger lib none first with
  | .error e => .error e
  | .ok (_, []) => .error .indexError
  | .ok _ =>
    match args first with
    | none => .error (.keyError first)
    | some value =>
      if lookups = [] then (convert lib.toInterpreter field.conversion value).map (formatText lib)
      else lib.lookup value lookups field.conversion

/-- The literal texts of the chunks, and what their fields are rendered to. -/
def renderChunks (render : Field → Except FormatError (List Char)) (raised : Option MarkupError) :
    List Chunk → Except FormatError (List Char)
  | [] =>
    match raised with
    | none => .ok []
    | some e => .error (.markup e)
  | chunk :: chunks => do
    let shown ← match chunk.field with
      | none => .ok []
      | some field => render field
    let rest ← renderChunks render raised chunks
    return chunk.literal ++ shown ++ rest

/-- The format specification of a field, with the fields in it rendered. -/
def expandSpec (expand : List Char → Except FormatError (List Char)) (field : Field) :
    Except FormatError (List Char) :=
  if '{' ∈ field.spec then expand field.spec else .ok field.spec

/-- A format string with its fields rendered; `depth` levels of them may be nested. -/
def formatDepth (lib : FormatLib) (args : FormatArgs) : (depth : Nat) → (text : List Char) →
    Except FormatError (List Char)
  | 0, _ => .error (.spec .maxRecursion)
  | depth + 1, text =>
    let (chunks, raised) := parseMarkup text
    renderChunks (fun field => do
      let format ← fieldValue lib args field
      let spec ← expandSpec (formatDepth lib args depth) field
      format spec) raised chunks

/-- `text.format(**args)`. -/
def strFormat (lib : FormatLib) (args : FormatArgs) (text : List Char) :
    Except FormatError (List Char) := formatDepth lib args 2 text

/-! ## What is rendered -/

/-- The chunks with `shown` for every field. -/
def fillFields (shown : List Char) (chunks : List Chunk) : List Char :=
  chunks.flatMap fun chunk => chunk.literal ++ if chunk.field.isSome then shown else []

/-- What a specification makes of `value` is `shown`: the text itself when the width and the
precision leave it, or what the precision leaves of it between fill characters. -/
def FormatSpec.Gives (f : FormatSpec) (value shown : List Char) : Prop :=
  (value = shown ∧ f.width.getD 0 ≤ value.length ∧ ∀ p, f.precision = some p → value.length ≤ p) ∨
  ∃ p, f.precision = some p ∧ p < value.length ∧
    shown = List.replicate (f.leftFill (f.width.getD 0 - p)) f.fill ++ value.take p ++
      List.replicate (f.width.getD 0 - p - f.leftFill (f.width.getD 0 - p)) f.fill

section Apply

variable {f : FormatSpec} {value shown : List Char}

theorem FormatSpec.leftFill_le (f : FormatSpec) (missing : Nat) : f.leftFill missing ≤ missing := by
  unfold FormatSpec.leftFill
  split
  · exact Nat.le_refl _
  · split
    · exact Nat.div_le_self _ _
    · exact Nat.zero_le _

theorem FormatSpec.length_apply (f : FormatSpec) (value : List Char) :
    (f.apply value).length = max (f.kept value).length (f.width.getD 0) := by
  have hle := f.leftFill_le (f.width.getD 0 - (f.kept value).length)
  simp only [FormatSpec.apply, List.length_append, List.length_replicate]
  omega

/-- A text that the precision leaves is only filled up. -/
theorem FormatSpec.kept_eq_self (h : ∀ p, f.precision = some p → value.length ≤ p) :
    f.kept value = value := by
  unfold FormatSpec.kept
  split
  · rfl
  · next p hp => exact List.take_of_length_le (h p hp)

/-- **What a specification makes of a text**, when that is no longer than the text. -/
theorem FormatSpec.apply_eq_iff (hlength : shown.length ≤ value.length) :
    f.apply value = shown ↔ f.Gives value shown := by
  by_cases hcut : ∃ p, f.precision = some p ∧ p < value.length
  · obtain ⟨p, hp, hlt⟩ := hcut
    have hkept : f.kept value = value.take p := by simp only [FormatSpec.kept, hp]
    have hlen : (value.take p).length = p := List.length_take_of_le (Nat.le_of_lt hlt)
    have happly : f.apply value =
        List.replicate (f.leftFill (f.width.getD 0 - p)) f.fill ++ value.take p ++
          List.replicate (f.width.getD 0 - p - f.leftFill (f.width.getD 0 - p)) f.fill := by
      simp only [FormatSpec.apply, hkept, hlen]
    rw [happly]
    constructor
    · exact fun h => .inr ⟨p, hp, hlt, h.symm⟩
    · rintro (⟨-, -, hfits⟩ | ⟨p', hp', -, h⟩)
      · have := hfits p hp
        omega
      · obtain rfl := Option.some.inj (hp.symm.trans hp')
        exact h.symm
  · have hkeeps : ∀ p, f.precision = some p → value.length ≤ p := fun p hp =>
      Nat.le_of_not_lt fun hlt => hcut ⟨p, hp, hlt⟩
    have hkept := f.kept_eq_self hkeeps
    constructor
    · intro h
      have hwidth := f.length_apply value
      rw [h, hkept] at hwidth
      have hfits : f.width.getD 0 ≤ value.length := by omega
      refine .inl ⟨?_, hfits, hkeeps⟩
      rw [← h, FormatSpec.apply, hkept, Nat.sub_eq_zero_of_le hfits]
      simp only [Nat.le_zero.mp (f.leftFill_le 0), List.replicate_zero, List.nil_append,
        Nat.sub_zero, List.append_nil]
    · rintro (⟨rfl, hfits, -⟩ | ⟨p, hp, hlt, -⟩)
      · rw [FormatSpec.apply, hkept, Nat.sub_eq_zero_of_le hfits]
        simp only [Nat.le_zero.mp (f.leftFill_le 0), List.replicate_zero, List.nil_append,
          Nat.sub_zero, List.append_nil]
      · exact absurd ⟨p, hp, hlt⟩ hcut

end Apply

section Render

variable {render : Field → Except FormatError (List Char)} {chunks : List Chunk} {field : Field}

theorem fillFields_cons (shown : List Char) (chunk : Chunk) (chunks : List Chunk) :
    fillFields shown (chunk :: chunks) =
      chunk.literal ++ (if chunk.field.isSome then shown else []) ++ fillFields shown chunks := rfl

/-- Chunks without fields are their literal texts. -/
theorem renderChunks_literals (render : Field → Except FormatError (List Char))
    (h : chunks.filterMap (·.field) = []) (shown : List Char) :
    renderChunks render none chunks = .ok (fillFields shown chunks) := by
  induction chunks with
  | nil => rfl
  | cons chunk chunks ih =>
    cases hfield : chunk.field with
    | some field => simp only [List.filterMap_cons, hfield, reduceCtorEq] at h
    | none =>
      simp only [List.filterMap_cons, hfield] at h
      simp only [renderChunks, hfield, ih h, fillFields_cons]
      rfl

/-- **Chunks with one field** are their literal texts with the field rendered. -/
theorem renderChunks_single (h : chunks.filterMap (·.field) = [field]) :
    renderChunks render none chunks = (render field).map fun shown => fillFields shown chunks := by
  induction chunks with
  | nil => cases h
  | cons chunk chunks ih =>
    cases hfield : chunk.field with
    | none =>
      simp only [List.filterMap_cons, hfield] at h
      simp only [renderChunks, hfield, ih h, fillFields_cons]
      cases render field <;> rfl
    | some field' =>
      simp only [List.filterMap_cons, hfield, List.cons.injEq] at h
      obtain ⟨rfl, hrest⟩ := h
      simp only [renderChunks, hfield, fillFields_cons]
      cases render field' with
      | error e => rfl
      | ok shown =>
        simp only [renderChunks_literals render hrest shown]
        rfl

/-- One field stands between two fixed texts. -/
theorem fillFields_single (h : chunks.filterMap (·.field) = [field]) :
    ∃ before after, ∀ shown, fillFields shown chunks = before ++ shown ++ after := by
  induction chunks with
  | nil => cases h
  | cons chunk chunks ih =>
    cases hfield : chunk.field with
    | none =>
      simp only [List.filterMap_cons, hfield] at h
      obtain ⟨before, after, heq⟩ := ih h
      refine ⟨chunk.literal ++ before, after, fun shown => ?_⟩
      simp only [fillFields_cons, hfield, heq, Option.isSome_none, Bool.false_eq_true, if_false,
        List.append_nil, List.append_assoc]
    | some field' =>
      simp only [List.filterMap_cons, hfield, List.cons.injEq] at h
      refine ⟨chunk.literal, fillFields [] chunks, fun shown => ?_⟩
      have hsame : fillFields shown chunks = fillFields [] chunks := by
        have hrendered := renderChunks_literals (fun _ => .ok []) h.2
        exact Except.ok.inj ((hrendered shown).symm.trans (hrendered []))
      simp only [fillFields_cons, hfield, hsame, Option.isSome_some, if_true]

/-- What `format` of a text returns. -/
theorem formatText_eq_ok {lib : FormatLib} {value spec shown : List Char} :
    formatText lib value spec = .ok shown ↔
      ∃ f, parseSpec lib spec = .ok f ∧ f.check = .ok () ∧ f.apply value = shown := by
  unfold formatText
  rw [except_bind_eq_ok]
  refine exists_congr fun f => and_congr_right fun _ => ?_
  rw [except_bind_eq_ok]
  constructor
  · rintro ⟨_, hcheck, happly⟩
    exact ⟨hcheck, Except.ok.inj happly⟩
  · rintro ⟨hcheck, happly⟩
    exact ⟨(), hcheck, congrArg _ happly⟩

end Render

end ClawEngine.Core
