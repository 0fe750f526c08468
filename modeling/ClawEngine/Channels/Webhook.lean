import ClawEngine.Core.Dict
import ClawEngine.Core.Json
import ClawEngine.Core.Outcome

/-!
# WebhookChannel

`engine/channels/contracts.py` and `adapters/channels/webhook.py`: an inbound text with its headers
is verified and parsed into a message. `WebhookLib` is the library the channel uses beside the
decoder: the HMAC, `str.lower`, and the text of the `TypeError` that taking an item of a value
raises.
-/

set_option autoImplicit false

namespace ClawEngine.Channels

open ClawEngine.Core

/-- `message_id` is what the payload has under the key. -/
structure IncomingMessage where
  channel : String
  rawUserRef : String
  externalThreadKey : String
  text : String
  messageId : Json := .null
  attachments : List String := []
  isCommand : Bool := false

structure ReplyTarget where
  channel : String
  externalThreadKey : String
  rawUserRef : String
  deriving DecidableEq, Repr

/-- The library functions whose results are left open. -/
structure WebhookLib extends PyLib where
  /-- `hmac.new(secret.encode(), raw.encode(), hashlib.sha256).hexdigest()`. -/
  hmacHex : (secret raw : String) → String
  /-- `text.lower()`. -/
  lower : String → String
  /-- The text of the `TypeError` of `value[key]`. -/
  subscriptText : Json → String

/-- What the two steps raise. -/
inductive InboundError
  | inboundAuth (text : String)
  | raised (e : PyError)
  deriving DecidableEq, Repr

/-- `str(value)`. -/
def WebhookLib.strOf (py : WebhookLib) : Json → String
  | .str s => s
  | v => py.str v

/-- `type(value).__name__`. -/
def typeName : Json → String
  | .null => "NoneType"
  | .bool _ => "bool"
  | .int _ => "int"
  | .float _ => "float"
  | .str _ => "str"
  | .arr _ => "list"
  | .obj _ => "dict"

/-- `s.isascii()`. -/
def isAscii (s : String) : Bool := s.toList.all (·.toNat < 128)

/-- `lower.get("x-signature")`. -/
def signatureOf (py : WebhookLib) (headers : Dict String String) : Option String :=
  (headers.items.foldl (fun lower header => lower.set (py.lower header.1) header.2)
    (∅ : Dict String String)).get? "x-signature"

/-- `WebhookChannel.verify_inbound`. `compare_digest` refuses a text that is not ASCII. -/
def verifyInbound (py : WebhookLib) (secret raw : String) (headers : Dict String String) :
    Except InboundError Unit :=
  match signatureOf py headers with
  | none => .error (.inboundAuth "missing X-Signature")
  | some sig =>
    if sig.isEmpty then .error (.inboundAuth "missing X-Signature")
    else
      let expected := py.hmacHex secret raw
      if !(isAscii sig && isAscii expected) then
        .error (.raised ⟨.typeError, "comparing strings with non-ASCII characters is not supported"⟩)
      else if sig ≠ expected then .error (.inboundAuth "signature mismatch")
      else .ok ()

/-- `payload[key]`, with its two exceptions under one name. -/
def subscript (py : WebhookLib) (payload : Json) (key : String) : Except InboundError Json :=
  let missing (text : String) : Except InboundError Json :=
    .error (.raised ⟨.valueError, "webhook payload 缺少必需字段: " ++ text⟩)
  match payload.members? with
  | none => missing (py.subscriptText payload)
  | some members =>
    if Json.has members key then .ok (Json.get members key) else missing ("'" ++ key ++ "'")

/-- `json.loads(raw)`, with a `JSONDecodeError` under another name. -/
def decodeBody (py : WebhookLib) (raw : String) : Except InboundError Json :=
  match py.loads raw with
  | .ok payload => .ok payload
  | .error e =>
    .error (.raised (if e.kind = .jsonDecodeError then
      ⟨.valueError, "malformed webhook body: " ++ e.text⟩ else e))

/-- `payload.get("attachments", []) or []`, when it is a list. -/
def attachmentsOf (payload : Json) : Except InboundError (List Json) := do
  let given ← (payload.callGet "attachments" (.arr [])).mapError .raised
  match given.orElse (.arr []) with
  | .arr items => .ok items
  | other => .error (.raised ⟨.valueError,
      "attachments 必须是 list/tuple，得到 " ++ typeName other⟩)

/-- `WebhookChannel.parse_inbound`. -/
def parseInbound (py : WebhookLib) (raw : String) : Except InboundError IncomingMessage := do
  let payload ← decodeBody py raw
  let user ← subscript py payload "user"
  let thread ← subscript py payload "thread"
  let text ← subscript py payload "text"
  let attachments ← attachmentsOf payload
  let messageId ← (payload.callGet "message_id" .null).mapError .raised
  return {
    channel := "webhook", rawUserRef := py.strOf user, externalThreadKey := py.strOf thread
    text := py.strOf text, messageId, attachments := attachments.map py.strOf
    isCommand := (py.strOf text).startsWith "/" }

section Inbound

variable {py : WebhookLib} {secret raw : String} {headers : Dict String String}

end Inbound

end ClawEngine.Channels
