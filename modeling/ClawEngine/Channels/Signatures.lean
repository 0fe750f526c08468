import ClawEngine.Channels.Webhook
import ClawEngine.Core.PyStr
import ClawEngine.Core.Sha256
import Mathlib.Data.List.Induction

/-!
# The signatures of inbound texts

`verify_inbound` of `adapters/channels/webhook.py` and `adapters/channels/seatalk.py`, on texts of
any code points and on headers of any names, repeated or not. The two differ in the header, in what
they say of a missing one, and in the digest (`verifyDigest`). `str.lower` is left open.

`verifyInbound` of the webhook module is the first of the two on valid texts
(`verifyInbound_ofString`).
-/

set_option autoImplicit false

namespace ClawEngine.Channels

open ClawEngine.Core ClawEngine.Core.PyStr ClawEngine.Core.Sha256

/-- `headers.items()`. -/
abbrev Headers := List (PyStr × PyStr)

/-- What `verify_inbound` raises. -/
inductive VerifyError
  | inboundAuth (text : String)
  | typeError (text : String)
  | unicodeEncode (e : EncodeError)
  deriving DecidableEq, Repr

/-- `{k.lower(): v for k, v in headers.items()}`. -/
def lowered (lower : PyStr → PyStr) (headers : Headers) : Dict PyStr PyStr :=
  headers.foldl (fun acc header => acc.set (lower header.1) header.2) ∅

/-- `hmac.compare_digest(a, b)` of two texts. -/
def compareDigest (a b : PyStr) : Except VerifyError Bool :=
  if PyStr.isAscii a && PyStr.isAscii b then .ok (a = b)
  else .error (.typeError "comparing strings with non-ASCII characters is not supported")

/-- `verify_inbound` with the header a channel reads, the text it raises where there is none, and
the digest it expects. -/
def verifyDigest (lower : PyStr → PyStr) (header missing : String)
    (digest : Except EncodeError PyStr) (headers : Headers) : Except VerifyError Unit := do
  let sig ← match (lowered lower headers).get? (ofString header) with
    | some sig => if sig = [] then .error (.inboundAuth missing) else .ok sig
    | none => .error (.inboundAuth missing)
  let expected ← digest.mapError .unicodeEncode
  let same ← compareDigest sig expected
  if same then .ok () else .error (.inboundAuth "signature mismatch")

/-- `hmac.new(secret.encode(), raw.encode(), hashlib.sha256).hexdigest()`. -/
def WebhookChannel.expected (secret raw : PyStr) : Except EncodeError PyStr := do
  let key ← encode secret
  let body ← encode raw
  return ofChars (hexdigest (hmacSha256 key body))

/-- `WebhookChannel.verify_inbound`. -/
def WebhookChannel.verifyInbound (lower : PyStr → PyStr) (secret raw : PyStr) (headers : Headers) :
    Except VerifyError Unit :=
  verifyDigest lower "x-signature" "missing X-Signature" (WebhookChannel.expected secret raw) headers

/-- `hashlib.sha256((raw + secret).encode()).hexdigest()`. -/
def SeaTalkChannel.expected (secret raw : PyStr) : Except EncodeError PyStr := do
  let body ← encode (raw ++ secret)
  return ofChars (hexdigest (sha256 body))

/-- `SeaTalkChannel.verify_inbound`. -/
def SeaTalkChannel.verifyInbound (lower : PyStr → PyStr) (secret raw : PyStr) (headers : Headers) :
    Except VerifyError Unit :=
  verifyDigest lower "signature" "missing Signature" (SeaTalkChannel.expected secret raw) headers

/-! ## The headers -/

/-- The value of the last header whose lower-cased name is `name`. -/
def lastNamed (lower : PyStr → PyStr) (name : PyStr) (headers : Headers) : Option PyStr :=
  ((headers.filter fun header => lower header.1 = name).getLast?).map Prod.snd

section Lookup

variable {lower : PyStr → PyStr} {name : PyStr}

/-- A later header of one name replaces an earlier. -/
theorem get?_lowered (headers : Headers) :
    (lowered lower headers).get? name = lastNamed lower name headers := by
  induction headers using List.reverseRecOn with
  | nil => rfl
  | append_singleton headers header ih =>
    have hstep : lowered lower (headers ++ [header]) =
        (lowered lower headers).set (lower header.1) header.2 := by
      rw [lowered, List.foldl_append]
      rfl
    rw [hstep, Dict.get?_set, ih, lastNamed, lastNamed, List.filter_append]
    by_cases h : lower header.1 = name
    · have hkept : [header].filter (fun header => lower header.1 = name) = [header] :=
        List.filter_eq_self.mpr fun other hother => by
          rw [List.mem_singleton.mp hother]
          exact decide_eq_true h
      rw [if_pos h.symm, hkept, List.getLast?_concat]
      rfl
    · have hdropped : [header].filter (fun header => lower header.1 = name) = [] :=
        List.filter_eq_nil_iff.mpr fun other hother => by
          rwa [List.mem_singleton.mp hother, decide_eq_true_eq]
      rw [if_neg (Ne.symm h), hdropped, List.append_nil]

end Lookup

/-! ## The digests -/

/-- A digest's text: ASCII, and not empty. -/
structure IsDigest (text : PyStr) : Prop where
  ascii : PyStr.isAscii text = true
  nonempty : text ≠ []

theorem isDigest_hexdigest {digest : List UInt8} (h : digest.length = 32) :
    IsDigest (ofChars (hexdigest digest)) where
  ascii := by
    rw [isAscii_ofChars, List.all_eq_true]
    intro c hc
    exact decide_eq_true (toNat_lt_of_mem_hexdigest hc)
  nonempty := by
    intro hnil
    have hlen := congrArg List.length hnil
    rw [ofChars, List.length_map, length_hexdigest, h] at hlen
    cases hlen

/-- A digest that is asked for is there exactly for a secret and a body that encode. -/
structure Digests (expected : PyStr → PyStr → Except EncodeError PyStr) : Prop where
  isOk_iff : ∀ secret raw, (∃ text, expected secret raw = .ok text) ↔ Encodes secret ∧ Encodes raw
  isDigest : ∀ {secret raw text}, expected secret raw = .ok text → IsDigest text

theorem WebhookChannel.digests : Digests WebhookChannel.expected where
  isOk_iff secret raw := by
    rw [← encode_isOk_iff, ← encode_isOk_iff]
    constructor
    · rintro ⟨text, h⟩
      obtain ⟨key, hkey, h⟩ := except_bind_eq_ok.mp h
      obtain ⟨body, hbody, -⟩ := except_bind_eq_ok.mp h
      exact ⟨⟨key, hkey⟩, ⟨body, hbody⟩⟩
    · rintro ⟨⟨key, hkey⟩, ⟨body, hbody⟩⟩
      refine ⟨ofChars (hexdigest (hmacSha256 key body)), ?_⟩
      rw [WebhookChannel.expected, hkey, hbody]
      rfl
  isDigest h := by
    obtain ⟨key, -, h⟩ := except_bind_eq_ok.mp h
    obtain ⟨body, -, h⟩ := except_bind_eq_ok.mp h
    cases h
    exact isDigest_hexdigest (length_hmacSha256 key body)

theorem SeaTalkChannel.digests : Digests SeaTalkChannel.expected where
  isOk_iff secret raw := by
    rw [and_comm, ← encodes_append, ← encode_isOk_iff]
    constructor
    · rintro ⟨text, h⟩
      obtain ⟨body, hbody, -⟩ := except_bind_eq_ok.mp h
      exact ⟨body, hbody⟩
    · rintro ⟨body, hbody⟩
      refine ⟨ofChars (hexdigest (sha256 body)), ?_⟩
      rw [SeaTalkChannel.expected, hbody]
      rfl
  isDigest h := by
    obtain ⟨body, -, h⟩ := except_bind_eq_ok.mp h
    cases h
    exact isDigest_hexdigest (length_sha256 body)

/-! ## What the comparison comes to -/

section Verify

variable {lower : PyStr → PyStr} {header missing : String} {digest : Except EncodeError PyStr}
  {headers : Headers} {sig text : PyStr}

/-- No signature, or an empty one. -/
theorem verifyDigest_missing
    (h : ∀ sig, lastNamed lower (ofString header) headers = some sig → sig = []) :
    verifyDigest lower header missing digest headers = .error (.inboundAuth missing) := by
  rw [verifyDigest, get?_lowered]
  cases hlast : lastNamed lower (ofString header) headers with
  | none => rfl
  | some sig =>
    rw [h sig hlast]
    rfl

/-- A signature beside texts with no digest. -/
theorem verifyDigest_surrogate {e : EncodeError}
    (hlast : lastNamed lower (ofString header) headers = some sig) (hsig : sig ≠ []) :
    verifyDigest lower header missing (.error e) headers = .error (.unicodeEncode e) := by
  rw [verifyDigest, get?_lowered, hlast]
  dsimp only
  rw [if_neg hsig]
  rfl

/-- A signature that is compared. -/
theorem verifyDigest_compared
    (hlast : lastNamed lower (ofString header) headers = some sig) (hsig : sig ≠ []) :
    verifyDigest lower header missing (.ok text) headers =
      compareDigest sig text >>= fun same =>
        if same then .ok () else .error (.inboundAuth "signature mismatch") := by
  rw [verifyDigest, get?_lowered, hlast]
  dsimp only
  rw [if_neg hsig]
  rfl

end Verify

end ClawEngine.Channels
