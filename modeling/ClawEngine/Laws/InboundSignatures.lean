import ClawEngine.Channels.Signatures

/-!
# Answers by signature

An inbound text is accepted exactly when the last header of the signature's name is the digest of
this text and the secret. A text that is not accepted should be refused with `InboundAuthError`, but
the comparison raises a `TypeError` of its own where a signature is not ASCII, and the digest a
`UnicodeEncodeError` where the secret or the body has a surrogate. Both channels are one case of
`verifyDigest`, and the condition is the same for both.
-/

set_option autoImplicit false

namespace ClawEngine.Channels

open ClawEngine.Core ClawEngine.Core.PyStr ClawEngine.Core.Sha256

/-- The outcome is by the signature alone: the text is accepted exactly when the last header of this
name is the digest, and every other outcome is an `InboundAuthError`. -/
structure AnswersBySignature (lower : PyStr → PyStr) (header : String)
    (digest : Except EncodeError PyStr) (headers : Headers) (outcome : Except VerifyError Unit) :
    Prop where
  accepted : outcome = .ok () ↔
    ∃ text, digest = .ok text ∧ lastNamed lower (ofString header) headers = some text
  refused : ∀ e, outcome = .error e → ∃ text, e = .inboundAuth text

/-- There is no signature, or an empty one, or an ASCII one beside texts that encode. -/
def Comparable (lower : PyStr → PyStr) (header : String) (secret raw : PyStr) (headers : Headers) :
    Prop :=
  ∀ sig, lastNamed lower (ofString header) headers = some sig → sig ≠ [] →
    PyStr.isAscii sig = true ∧ Encodes secret ∧ Encodes raw

section Answers

variable {lower : PyStr → PyStr} {header missing : String} {headers : Headers}
  {sig text secret raw : PyStr}
  {expected : PyStr → PyStr → Except EncodeError PyStr}

theorem compareDigest_of_ascii (hsig : PyStr.isAscii sig = true) (htext : IsDigest text) :
    compareDigest sig text = .ok (sig = text) := by
  rw [compareDigest, hsig, htext.ascii]
  rfl

theorem compareDigest_of_not_ascii (hsig : PyStr.isAscii sig = false) :
    compareDigest sig text =
      .error (.typeError "comparing strings with non-ASCII characters is not supported") := by
  rw [compareDigest, hsig]
  rfl

/-- A missing signature is answered as it should be. -/
theorem answers_missing (hdigests : Digests expected)
    (h : ∀ sig, lastNamed lower (ofString header) headers = some sig → sig = []) :
    AnswersBySignature lower header (expected secret raw) headers
      (verifyDigest lower header missing (expected secret raw) headers) := by
  rw [verifyDigest_missing h]
  refine ⟨⟨fun hok => ?_, ?_⟩, fun e he => ?_⟩
  · cases hok
  · rintro ⟨text, htext, hlast⟩
    exact absurd (h text hlast) (hdigests.isDigest htext).nonempty
  · cases he
    exact ⟨missing, rfl⟩

/-- A signature that can be compared is answered as it should be. -/
theorem answers_compared (htext : IsDigest text)
    (hlast : lastNamed lower (ofString header) headers = some sig) (hsig : sig ≠ [])
    (hascii : PyStr.isAscii sig = true) :
    AnswersBySignature lower header (.ok text) headers
      (verifyDigest lower header missing (.ok text) headers) := by
  rw [verifyDigest_compared hlast hsig, compareDigest_of_ascii hascii htext]
  by_cases heq : sig = text
  · refine ⟨⟨fun _ => ⟨text, rfl, heq ▸ hlast⟩, fun _ => ?_⟩, fun e he => ?_⟩
    · rw [heq, decide_eq_true rfl]
      rfl
    · rw [heq, decide_eq_true rfl] at he
      cases he
  · rw [decide_eq_false heq]
    refine ⟨⟨fun hok => ?_, ?_⟩, fun e he => ?_⟩
    · cases hok
    · rintro ⟨other, hother, hsame⟩
      cases hother
      exact absurd (Option.some.inj (hlast.symm.trans hsame)) heq
    · cases he
      exact ⟨"signature mismatch", rfl⟩

/-- A text with no digest, or a signature that is not ASCII, is answered by another exception. -/
theorem comparable_of_answers (hdigests : Digests expected)
    (h : AnswersBySignature lower header (expected secret raw) headers
      (verifyDigest lower header missing (expected secret raw) headers)) :
    Comparable lower header secret raw headers := by
  intro sig hlast hsig
  rw [← hdigests.isOk_iff]
  cases hexp : expected secret raw with
  | error e =>
    rw [hexp] at h
    obtain ⟨text, htext⟩ := h.refused _ (verifyDigest_surrogate hlast hsig)
    cases htext
  | ok text =>
    rw [hexp] at h
    refine ⟨?_, text, rfl⟩
    cases hascii : PyStr.isAscii sig with
    | true => rfl
    | false =>
      have hraised : verifyDigest lower header missing (.ok text) headers = .error _ :=
        (verifyDigest_compared hlast hsig).trans
          (congrArg (· >>= _) (compareDigest_of_not_ascii hascii))
      obtain ⟨other, hother⟩ := h.refused _ hraised
      cases hother

theorem answers_iff_comparable (hdigests : Digests expected) :
    AnswersBySignature lower header (expected secret raw) headers
        (verifyDigest lower header missing (expected secret raw) headers) ↔
      Comparable lower header secret raw headers := by
  refine ⟨comparable_of_answers hdigests, fun h => ?_⟩
  by_cases hnone : ∀ sig, lastNamed lower (ofString header) headers = some sig → sig = []
  · exact answers_missing hdigests hnone
  · obtain ⟨sig, hlast, hsig⟩ : ∃ sig, lastNamed lower (ofString header) headers = some sig ∧
        sig ≠ [] := by
      simpa only [not_forall, exists_prop] using hnone
    obtain ⟨hascii, hencodes⟩ := h sig hlast hsig
    obtain ⟨text, htext⟩ := (hdigests.isOk_iff secret raw).mpr hencodes
    rw [htext]
    exact answers_compared (hdigests.isDigest htext) hlast hsig hascii

end Answers

/-! ## The two channels -/

/-- **Answers by signature**, in both channels, exactly for what can be compared. -/
theorem verifyInbound_answers_iff (lower : PyStr → PyStr) (secret raw : PyStr) (headers : Headers) :
    (AnswersBySignature lower "x-signature" (WebhookChannel.expected secret raw) headers
        (WebhookChannel.verifyInbound lower secret raw headers) ↔
      Comparable lower "x-signature" secret raw headers) ∧
    (AnswersBySignature lower "signature" (SeaTalkChannel.expected secret raw) headers
        (SeaTalkChannel.verifyInbound lower secret raw headers) ↔
      Comparable lower "signature" secret raw headers) :=
  ⟨answers_iff_comparable WebhookChannel.digests, answers_iff_comparable SeaTalkChannel.digests⟩

/-- `str.lower` of a text whose letters are ASCII. -/
def lowerAscii (text : PyStr) : PyStr :=
  text.map fun c => if h : 65 ≤ c.val ∧ c.val ≤ 90 then ⟨c.val + 32, by omega⟩ else c

/-- The signature `é` ends `verify_inbound` of both channels with a `TypeError`. -/
theorem non_ascii_signature_escapes :
    (WebhookChannel.verifyInbound lowerAscii (ofString "s3cr3t") (ofString "\x7b\x7d")
        [(ofString "X-Signature", ofString "é")] = .error
          (.typeError "comparing strings with non-ASCII characters is not supported") ∧
      ¬ AnswersBySignature lowerAscii "x-signature"
        (WebhookChannel.expected (ofString "s3cr3t") (ofString "\x7b\x7d"))
        [(ofString "X-Signature", ofString "é")]
        (WebhookChannel.verifyInbound lowerAscii (ofString "s3cr3t") (ofString "\x7b\x7d")
          [(ofString "X-Signature", ofString "é")])) ∧
    (SeaTalkChannel.verifyInbound lowerAscii (ofString "s3cr3t") (ofString "\x7b\x7d")
        [(ofString "Signature", ofString "é")] = .error
          (.typeError "comparing strings with non-ASCII characters is not supported") ∧
      ¬ AnswersBySignature lowerAscii "signature"
        (SeaTalkChannel.expected (ofString "s3cr3t") (ofString "\x7b\x7d"))
        [(ofString "Signature", ofString "é")]
        (SeaTalkChannel.verifyInbound lowerAscii (ofString "s3cr3t") (ofString "\x7b\x7d")
          [(ofString "Signature", ofString "é")])) := by
  have hwebhook : WebhookChannel.verifyInbound lowerAscii (ofString "s3cr3t") (ofString "\x7b\x7d")
      [(ofString "X-Signature", ofString "é")] = .error
        (.typeError "comparing strings with non-ASCII characters is not supported") := by
    decide +kernel
  have hseaTalk : SeaTalkChannel.verifyInbound lowerAscii (ofString "s3cr3t") (ofString "\x7b\x7d")
      [(ofString "Signature", ofString "é")] = .error
        (.typeError "comparing strings with non-ASCII characters is not supported") := by
    decide +kernel
  refine ⟨⟨hwebhook, fun h => ?_⟩, hseaTalk, fun h => ?_⟩
  · obtain ⟨text, htext⟩ := h.refused _ hwebhook
    cases htext
  · obtain ⟨text, htext⟩ := h.refused _ hseaTalk
    cases htext

/-! ## Valid texts -/

/-- An exception of the webhook module, as one of these. -/
def VerifyError.ofInbound : InboundError → VerifyError
  | .inboundAuth text => .inboundAuth text
  | .raised e => .typeError e.text

/-- Headers of valid texts. -/
def Headers.ofStrings (items : List (String × String)) : Headers :=
  items.map fun header => (ofString header.1, ofString header.2)

section Valid

variable {py : WebhookLib} {lower : PyStr → PyStr}

theorem isAscii_ofString (s : String) : PyStr.isAscii (ofString s) = isAscii s :=
  isAscii_ofChars s.toList

theorem get?_lowered_ofStrings (hlower : ∀ s, lower (ofString s) = ofString (py.lower s))
    (items : List (String × String)) (name : String) :
    (lowered lower (Headers.ofStrings items)).get? (ofString name) =
      ((items.foldl (fun acc header => acc.set (py.lower header.1) header.2)
        (∅ : Dict String String)).get? name).map ofString := by
  induction items using List.reverseRecOn with
  | nil => rfl
  | append_singleton items header ih =>
    have hstep : lowered lower (Headers.ofStrings (items ++ [header])) =
        (lowered lower (Headers.ofStrings items)).set (ofString (py.lower header.1))
          (ofString header.2) := by
      rw [lowered, Headers.ofStrings, List.map_append, List.foldl_append, ← hlower]
      rfl
    rw [hstep, List.foldl_append, List.foldl_cons, List.foldl_nil, Dict.get?_set, Dict.get?_set, ih]
    by_cases h : name = py.lower header.1
    · rw [if_pos h, if_pos (congrArg ofString h)]
      rfl
    · rw [if_neg h, if_neg fun heq => h (ofString_injective heq)]

/-- **On valid texts** the webhook channel verifies as the module of its messages has it. -/
theorem verifyInbound_ofString (hlower : ∀ s, lower (ofString s) = ofString (py.lower s))
    (hhmac : ∀ secret raw, WebhookChannel.expected (ofString secret) (ofString raw) =
      .ok (ofString (py.hmacHex secret raw)))
    (secret raw : String) (headers : Dict String String) :
    WebhookChannel.verifyInbound lower (ofString secret) (ofString raw)
        (Headers.ofStrings headers.items) =
      (verifyInbound py secret raw headers).mapError VerifyError.ofInbound := by
  rw [WebhookChannel.verifyInbound, verifyDigest, get?_lowered_ofStrings hlower, hhmac,
    verifyInbound, signatureOf]
  cases (headers.items.foldl (fun acc header => acc.set (py.lower header.1) header.2)
    (∅ : Dict String String)).get? "x-signature" with
  | none => rfl
  | some sig =>
    rw [Option.map_some]
    dsimp only
    by_cases hempty : sig = ""
    · rw [if_pos (ofString_eq_nil.mpr hempty), hempty]
      rfl
    · have hkept : sig.isEmpty = false := by
        rw [← Bool.not_eq_true, String.isEmpty_iff]
        exact hempty
      rw [if_neg (mt ofString_eq_nil.mp hempty), hkept, if_neg Bool.false_ne_true]
      have hcompare : compareDigest (ofString sig) (ofString (py.hmacHex secret raw)) =
          if isAscii sig && isAscii (py.hmacHex secret raw) then
            .ok (decide (sig = py.hmacHex secret raw))
          else .error
            (.typeError "comparing strings with non-ASCII characters is not supported") := by
        rw [compareDigest, isAscii_ofString, isAscii_ofString]
        congr 2
        exact decide_eq_decide.mpr ofString_injective.eq_iff
      refine (congrArg (· >>= fun same => if same then .ok () else
        .error (.inboundAuth "signature mismatch")) hcompare).trans ?_
      cases isAscii sig && isAscii (py.hmacHex secret raw) with
      | false => rfl
      | true =>
        by_cases heq : sig = py.hmacHex secret raw
        · rw [decide_eq_true heq, if_neg (not_not.mpr heq)]
          rfl
        · rw [decide_eq_false heq, if_pos heq]
          rfl

end Valid

end ClawEngine.Channels
