import Mathlib.Data.List.Basic
import Mathlib.Tactic.IntervalCases

/-!
# SHA-256 and HMAC

The hash of FIPS 180-4 on lists of bytes, HMAC over it, and the hexadecimal text of a digest. The
sixty-four rounds of a block run over a window of sixteen words of the message schedule: a round
takes the oldest word, and the word it makes possible goes to the end.
-/

set_option autoImplicit false

namespace ClawEngine.Core.Sha256

/-! ## The rounds -/

abbrev Word := BitVec 32

/-- The chaining state. -/
structure Words where
  a : Word
  b : Word
  c : Word
  d : Word
  e : Word
  f : Word
  g : Word
  h : Word
  deriving DecidableEq, Repr

/-- The first 32 bits of the fractional parts of the square roots of the first eight primes. -/
def initial : Words :=
  ⟨0x6a09e667, 0xbb67ae85, 0x3c6ef372, 0xa54ff53a, 0x510e527f, 0x9b05688c, 0x1f83d9ab, 0x5be0cd19⟩

/-- The constants of the rounds: as `initial`, of the cube roots of the first sixty-four primes. -/
def constants : List Word :=
  [0x428a2f98, 0x71374491, 0xb5c0fbcf, 0xe9b5dba5, 0x3956c25b, 0x59f111f1, 0x923f82a4, 0xab1c5ed5,
   0xd807aa98, 0x12835b01, 0x243185be, 0x550c7dc3, 0x72be5d74, 0x80deb1fe, 0x9bdc06a7, 0xc19bf174,
   0xe49b69c1, 0xefbe4786, 0x0fc19dc6, 0x240ca1cc, 0x2de92c6f, 0x4a7484aa, 0x5cb0a9dc, 0x76f988da,
   0x983e5152, 0xa831c66d, 0xb00327c8, 0xbf597fc7, 0xc6e00bf3, 0xd5a79147, 0x06ca6351, 0x14292967,
   0x27b70a85, 0x2e1b2138, 0x4d2c6dfc, 0x53380d13, 0x650a7354, 0x766a0abb, 0x81c2c92e, 0x92722c85,
   0xa2bfe8a1, 0xa81a664b, 0xc24b8b70, 0xc76c51a3, 0xd192e819, 0xd6990624, 0xf40e3585, 0x106aa070,
   0x19a4c116, 0x1e376c08, 0x2748774c, 0x34b0bcb5, 0x391c0cb3, 0x4ed8aa4a, 0x5b9cca4f, 0x682e6ff3,
   0x748f82ee, 0x78a5636f, 0x84c87814, 0x8cc70208, 0x90befffa, 0xa4506ceb, 0xbef9a3f7, 0xc67178f2]

def choose (x y z : Word) : Word := (x &&& y) ^^^ (~~~x &&& z)

def majority (x y z : Word) : Word := (x &&& y) ^^^ (x &&& z) ^^^ (y &&& z)

def bigSigma0 (x : Word) : Word := x.rotateRight 2 ^^^ x.rotateRight 13 ^^^ x.rotateRight 22

def bigSigma1 (x : Word) : Word := x.rotateRight 6 ^^^ x.rotateRight 11 ^^^ x.rotateRight 25

def smallSigma0 (x : Word) : Word := x.rotateRight 7 ^^^ x.rotateRight 18 ^^^ (x >>> 3)

def smallSigma1 (x : Word) : Word := x.rotateRight 17 ^^^ x.rotateRight 19 ^^^ (x >>> 10)

/-- The window one word on: `W[t] = σ₁ W[t-2] + W[t-7] + σ₀ W[t-15] + W[t-16]`. -/
def slide (window : List Word) : List Word :=
  window.tail ++ [smallSigma1 (window.getD 14 0) + window.getD 9 0 +
    smallSigma0 (window.getD 1 0) + window.getD 0 0]

/-- One round, with its constant. -/
def round (now : Words × List Word) (k : Word) : Words × List Word :=
  let s := now.1
  let t₁ := s.h + bigSigma1 s.e + choose s.e s.f s.g + k + now.2.getD 0 0
  let t₂ := bigSigma0 s.a + majority s.a s.b s.c
  (⟨t₁ + t₂, s.a, s.b, s.c, s.d + t₁, s.e, s.f, s.g⟩, slide now.2)

def Words.add (s t : Words) : Words :=
  ⟨s.a + t.a, s.b + t.b, s.c + t.c, s.d + t.d, s.e + t.e, s.f + t.f, s.g + t.g, s.h + t.h⟩

/-- A block of sixteen words taken into the state. -/
def compress (s : Words) (block : List Word) : Words :=
  s.add (constants.foldl round (s, block)).1

/-! ## Bytes -/

/-- The big-endian words of a list of bytes. -/
def wordsOf : List UInt8 → List Word
  | b₀ :: b₁ :: b₂ :: b₃ :: rest =>
    BitVec.ofNat 32 (((b₀.toNat * 256 + b₁.toNat) * 256 + b₂.toNat) * 256 + b₃.toNat) ::
      wordsOf rest
  | _ => []

/-- The `n` low bytes of a number, the highest first. -/
def bytesOf (n value : Nat) : List UInt8 :=
  (List.range n).reverse.map fun i => UInt8.ofNat (value >>> (8 * i))

/-- The message with a one bit, as many zeros as complete a block, and its length in bits. -/
def padded (message : List UInt8) : List UInt8 :=
  message ++ 0x80 :: (List.replicate ((119 - message.length % 64) % 64) 0 ++
    bytesOf 8 (8 * message.length))

/-- So many blocks, one after the other. -/
def compressAll : Nat → List Word → Words → Words
  | 0, _, s => s
  | n + 1, words, s => compressAll n (words.drop 16) (compress s (words.take 16))

def Words.toBytes (s : Words) : List UInt8 :=
  [s.a, s.b, s.c, s.d, s.e, s.f, s.g, s.h].flatMap fun w => bytesOf 4 w.toNat

/-- `hashlib.sha256(message).digest()`. -/
def sha256 (message : List UInt8) : List UInt8 :=
  let words := wordsOf (padded message)
  (compressAll (words.length / 16) words initial).toBytes

/-- `hmac.new(key, message, hashlib.sha256).digest()`: a key over a block is hashed first. -/
def hmacSha256 (key message : List UInt8) : List UInt8 :=
  let key := if key.length > 64 then sha256 key else key
  let block := key ++ List.replicate (64 - key.length) 0
  sha256 (block.map (· ^^^ 0x5c) ++ sha256 (block.map (· ^^^ 0x36) ++ message))

theorem length_bytesOf (n value : Nat) : (bytesOf n value).length = n := by
  rw [bytesOf, List.length_map, List.length_reverse, List.length_range]

theorem length_toBytes (s : Words) : s.toBytes.length = 32 := by
  simp only [Words.toBytes, List.length_flatMap, length_bytesOf, List.map_cons, List.map_nil,
    List.sum_cons, List.sum_nil, Nat.reduceAdd]

theorem length_sha256 (message : List UInt8) : (sha256 message).length = 32 := length_toBytes _

theorem length_hmacSha256 (key message : List UInt8) : (hmacSha256 key message).length = 32 :=
  length_toBytes _

/-! ## The text of a digest -/

/-- The two lower-case hexadecimal digits of a byte. -/
def hexByte (b : UInt8) : List Char :=
  [(b.toNat / 16).digitChar, (b.toNat % 16).digitChar]

/-- `digest.hex()`. -/
def hexdigest (digest : List UInt8) : List Char := digest.flatMap hexByte

theorem digitChar_toNat_lt {n : Nat} (h : n < 16) : n.digitChar.toNat < 128 := by
  interval_cases n
  all_goals decide

/-- A digest's text has only ASCII digits and letters. -/
theorem toNat_lt_of_mem_hexdigest {digest : List UInt8} {c : Char} (h : c ∈ hexdigest digest) :
    c.toNat < 128 := by
  obtain ⟨b, -, hc⟩ := List.mem_flatMap.mp h
  have hb : b.toNat < 256 := b.toNat_lt
  rcases List.mem_cons.mp hc with rfl | hc
  · exact digitChar_toNat_lt (by omega)
  · rw [List.mem_singleton.mp hc]
    exact digitChar_toNat_lt (Nat.mod_lt _ (by decide))

theorem length_hexdigest (digest : List UInt8) :
    (hexdigest digest).length = 2 * digest.length := by
  induction digest with
  | nil => rfl
  | cons b rest ih =>
    rw [hexdigest, List.flatMap_cons, List.length_append, ← hexdigest, ih, List.length_cons]
    simp only [hexByte, List.length_cons, List.length_nil]
    omega

example : hexdigest (sha256 [0x61, 0x62, 0x63]) =
    "ba7816bf8f01cfea414140de5dae2223b00361a396177a9cb410ff61f20015ad".toList := by
  decide +kernel

end ClawEngine.Core.Sha256
