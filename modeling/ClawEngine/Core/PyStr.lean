import Mathlib.Data.List.Basic

/-!
# Texts of any code points

A Python `str` is a sequence of code points, and a lone surrogate is one of them, which no Lean
`String` holds. Encoding such a text to UTF-8 raises. A valid text is told by its characters
(`ofString`), and encodes.
-/

set_option autoImplicit false

namespace ClawEngine.Core

abbrev CodePoint := Fin 0x110000

/-- A `str`. -/
abbrev PyStr := List CodePoint

namespace PyStr

/-- `'\ud800' <= c <= '\udfff'`. -/
def isSurrogate (c : CodePoint) : Bool := 0xD800 ≤ c.val && c.val ≤ 0xDFFF

/-- `text.isascii()`. -/
def isAscii (text : PyStr) : Bool := text.all (·.val < 128)

/-- The bytes of a code point. -/
def utf8 (c : CodePoint) : List UInt8 :=
  let continuation (shift : Nat) : UInt8 := UInt8.ofNat (0x80 + (c.val >>> shift) % 64)
  if c.val < 0x80 then [UInt8.ofNat c.val]
  else if c.val < 0x800 then [UInt8.ofNat (0xC0 + c.val >>> 6), continuation 0]
  else if c.val < 0x10000 then
    [UInt8.ofNat (0xE0 + c.val >>> 12), continuation 6, continuation 0]
  else [UInt8.ofNat (0xF0 + c.val >>> 18), continuation 12, continuation 6, continuation 0]

/-- `UnicodeEncodeError`: where the first run of surrogates begins, and ends. -/
structure EncodeError where
  start : Nat
  stop : Nat
  deriving DecidableEq, Repr

/-- `text.encode()`. -/
def encode (text : PyStr) : Except EncodeError (List UInt8) :=
  match text.findIdx? isSurrogate with
  | some start => .error ⟨start, start + ((text.drop start).takeWhile isSurrogate).length⟩
  | none => .ok (text.flatMap utf8)

/-- No code point of the text is a surrogate. -/
def Encodes (text : PyStr) : Prop := ∀ c ∈ text, isSurrogate c = false

section Encode

variable {text s t : PyStr}

theorem encode_of_encodes (h : Encodes text) : encode text = .ok (text.flatMap utf8) := by
  have hnone : text.findIdx? isSurrogate = none := List.findIdx?_eq_none_iff.mpr h
  rw [encode, hnone]

theorem encode_isOk_iff : (∃ bytes, encode text = .ok bytes) ↔ Encodes text := by
  refine ⟨fun ⟨bytes, h⟩ => ?_, fun h => ⟨_, encode_of_encodes h⟩⟩
  unfold encode at h
  cases hfind : text.findIdx? isSurrogate with
  | some start =>
    rw [hfind] at h
    cases h
  | none => exact List.findIdx?_eq_none_iff.mp hfind

theorem encodes_append : Encodes (s ++ t) ↔ Encodes s ∧ Encodes t := by
  constructor
  · intro h
    exact ⟨fun c hc => h c (List.mem_append_left _ hc), fun c hc => h c (List.mem_append_right _ hc)⟩
  · rintro ⟨hs, ht⟩ c hc
    rcases List.mem_append.mp hc with hc | hc
    · exact hs c hc
    · exact ht c hc

end Encode

/-! ## Valid texts -/

def ofChar (c : Char) : CodePoint :=
  ⟨c.toNat, by
    have h := c.valid
    rcases h with h | ⟨-, h⟩
    · exact Nat.lt_trans h (by decide)
    · exact h⟩

/-- The characters of a text as code points. -/
def ofChars (chars : List Char) : PyStr := chars.map ofChar

def ofString (s : String) : PyStr := ofChars s.toList

theorem ofChar_injective : Function.Injective ofChar := by
  intro c d h
  have hval : (ofChar c).val = (ofChar d).val := congrArg Fin.val h
  exact Char.toNat_inj.mp hval

theorem ofChars_injective : Function.Injective ofChars :=
  List.map_injective_iff.mpr ofChar_injective

theorem ofString_injective : Function.Injective ofString := by
  intro s t h
  exact String.toList_inj.mp (ofChars_injective h)

theorem ofString_eq_nil {s : String} : ofString s = [] ↔ s = "" := by
  rw [ofString, ofChars, List.map_eq_nil_iff, String.toList_eq_nil_iff]

theorem isAscii_ofChars (chars : List Char) :
    isAscii (ofChars chars) = chars.all (·.toNat < 128) := by
  rw [isAscii, ofChars, List.all_map]
  rfl

end PyStr

end ClawEngine.Core
