import ClawEngine.Channels.Webhook
import ClawEngine.Core.Repr

/-!
# What the parsers of inbound texts raise

`WebhookChannel.parse_inbound` and `SeaTalkChannel.parse_inbound` with every exception that can
leave them. `ParseLib` is what they take from Python's library: the decoder, whose exceptions are
open, the text of the `TypeError` of taking an item of a value, and which values are nested too
deeply for their `str` or their `repr`, which then raise a `RecursionError`.

`parseInbound` of `Webhook.lean` is the webhook's parser where no value is nested too deeply
(`WebhookChannel.parseInbound_eq`).
-/

set_option autoImplicit false

namespace ClawEngine.Core

/-- `issubclass(kind, ValueError)`. -/
def PyErrorKind.isValueError : PyErrorKind → Bool
  | .valueError | .jsonDecodeError | .unicodeDecodeError => true
  | _ => false

namespace Json

/-- The value under a key, of an object that has it. -/
def item? (v : Json) (key : String) : Option Json :=
  match v.members? with
  | none => none
  | some members => if has members key then some (get members key) else none

/-- The value that a path of keys leads to. -/
def lookup (v : Json) (path : List String) : Option Json := path.foldlM item? v

/-- `None` or a text. -/
def isOptionalText : Json → Bool
  | .null | .str _ => true
  | _ => false

end Json

end ClawEngine.Core

namespace ClawEngine.Channels

open ClawEngine.Core

/-- What the parsers take from Python's library. -/
structure ParseLib where
  interpreter : Interpreter
  floats : FloatText
  /-- `json.loads(raw)`. -/
  loads : String → Except PyError Json
  /-- The text of the `TypeError` of `value[key]`. -/
  subscriptText : Json → String
  strTooDeep : Json → Bool
  reprTooDeep : Json → Bool

/-! ## Expressions -/

namespace ParseLib

variable (py : ParseLib)

/-- A text has no depth. -/
def strFails : Json → Bool
  | .str _ => false
  | v => py.strTooDeep v

def reprFails : Json → Bool
  | .str _ => false
  | v => py.reprTooDeep v

/-- `str(value)`. -/
def str (v : Json) : Except PyError String :=
  if py.strFails v then
    .error ⟨.recursionError, "maximum recursion depth exceeded while getting the str of an object"⟩
  else .ok (String.ofList (strValue py.interpreter py.floats v))

/-- `repr(value)`. -/
def repr (v : Json) : Except PyError String :=
  if py.reprFails v then
    .error ⟨.recursionError, "maximum recursion depth exceeded while getting the repr of an object"⟩
  else .ok (String.ofList (reprValue py.interpreter py.floats v))

/-- `value[key]`, with the text of its `KeyError` or its `TypeError`. -/
def item (v : Json) (key : String) : Except String Json :=
  match v.item? key with
  | some w => .ok w
  | none => .error (match v.members? with
      | some _ => "'" ++ key ++ "'"
      | none => py.subscriptText v)

/-- `json.loads(raw)`, with a `JSONDecodeError` under another name. -/
def decode (malformed raw : String) : Except PyError Json :=
  (py.loads raw).mapError fun e =>
    if e.kind = .jsonDecodeError then ⟨.valueError, malformed ++ e.text⟩ else e

/-- Refuse a value that is not the text it has to be. -/
def expect (v : Json) (literal unsupported : String) : Except PyError Unit :=
  if v.isStr literal then .ok ()
  else do
    let shown ← py.repr v
    .error ⟨.valueError, unsupported ++ shown⟩

end ParseLib

/-- `value.get(key, default)`, which only a dictionary has. -/
def dictGet (v : Json) (key : String) (default : Json) : Except PyError Json :=
  match v with
  | .obj members => .ok (Json.getD members key default)
  | v => .error ⟨.attributeError, "'" ++ typeName v ++ "' object has no attribute 'get'"⟩

/-- `raise ValueError(f"..: {exc}")`. -/
def rejected (text exc : String) : PyError := ⟨.valueError, text ++ exc⟩

/-- The three fields every parser needs. -/
structure Fields where
  user : Json
  thread : Json
  text : Json

/-! ## The parsers -/

namespace WebhookChannel

variable (py : ParseLib)

def fields (payload : Json) : Except String Fields := do
  let user ← py.item payload "user"
  let thread ← py.item payload "thread"
  let text ← py.item payload "text"
  return { user, thread, text }

/-- `isinstance(raw_attachments, (list, tuple))`. -/
def attachmentItems : Json → Except PyError (List Json)
  | .arr items => .ok items
  | v => .error ⟨.valueError, "attachments 必须是 list/tuple，得到 " ++ typeName v⟩

/-- `WebhookChannel.parse_inbound`. -/
def parseInbound (raw : String) : Except PyError IncomingMessage := do
  let payload ← py.decode "malformed webhook body: " raw
  let fields ← (fields py payload).mapError (rejected "webhook payload 缺少必需字段: ")
  let given ← dictGet payload "attachments" (.arr [])
  let rawAttachments ← attachmentItems (given.orElse (.arr []))
  let rawUserRef ← py.str fields.user
  let externalThreadKey ← py.str fields.thread
  let text ← py.str fields.text
  let messageId ← dictGet payload "message_id" .null
  let attachments ← rawAttachments.mapM py.str
  return {
    channel := "webhook", rawUserRef, externalThreadKey, text, messageId, attachments
    isCommand := text.startsWith "/" }

section Agreement

variable {py} {W : WebhookLib}

theorem subscript_eq (hsub : W.subscriptText = py.subscriptText) (payload : Json) (key : String) :
    subscript W payload key = ((py.item payload key).mapError
      (rejected "webhook payload 缺少必需字段: ")).mapError .raised := by
  unfold subscript ParseLib.item Json.item?
  cases hmembers : payload.members? with
  | none => rw [hsub]; rfl
  | some members => cases hhas : Json.has members key <;> simp only [hhas] <;> rfl

theorem str_eq (hstr : ∀ v, W.strOf v = String.ofList (strValue py.interpreter py.floats v))
    (hdeep : ∀ v, py.strTooDeep v = false) (v : Json) : py.str v = .ok (W.strOf v) := by
  have hshown : py.strFails v = false := by cases v <;> first | rfl | exact hdeep _
  rw [ParseLib.str, hshown, hstr]
  rfl

theorem strs_eq (hstr : ∀ v, W.strOf v = String.ofList (strValue py.interpreter py.floats v))
    (hdeep : ∀ v, py.strTooDeep v = false) (items : List Json) :
    items.mapM py.str = .ok (items.map W.strOf) := by
  induction items with
  | nil => rfl
  | cons v items ih =>
    rw [List.mapM_cons, str_eq hstr hdeep, ih]
    rfl

theorem attachments_eq (members : List (String × Json)) :
    attachmentsOf (.obj members) = ((dictGet (.obj members) "attachments" (.arr []) >>=
      fun given => attachmentItems (given.orElse (.arr []))).mapError .raised) := by
  unfold attachmentsOf
  change (match (Json.getD members "attachments" (.arr [])).orElse (.arr []) with
    | .arr items => .ok items
    | other => _) = (attachmentItems _).mapError _
  cases (Json.getD members "attachments" (.arr [])).orElse (.arr []) <;> rfl

/-- Where no value is nested too deeply, the parser is the one of `Webhook.lean`. -/
theorem parseInbound_eq (hloads : W.loads = py.loads) (hsub : W.subscriptText = py.subscriptText)
    (hstr : ∀ v, W.strOf v = String.ofList (strValue py.interpreter py.floats v))
    (hdeep : ∀ v, py.strTooDeep v = false) (raw : String) :
    Channels.parseInbound W raw = (parseInbound py raw).mapError .raised := by
  unfold Channels.parseInbound parseInbound decodeBody ParseLib.decode
  rw [hloads]
  cases py.loads raw with
  | error e => rfl
  | ok payload =>
    change (subscript W payload "user" >>= _) =
      Except.mapError _ ((fields py payload).mapError _ >>= _)
    rw [subscript_eq hsub, subscript_eq hsub, subscript_eq hsub, fields]
    cases huser : py.item payload "user" with
    | error e => rfl
    | ok user =>
      cases py.item payload "thread" with
      | error e => rfl
      | ok thread =>
        cases py.item payload "text" with
        | error e => rfl
        | ok text =>
          obtain ⟨members, rfl⟩ : ∃ members, payload = .obj members := by
            cases payload <;> first | exact ⟨_, rfl⟩ | cases huser
          change (attachmentsOf (.obj members) >>= _) = Except.mapError _ (_ >>= _)
          rw [attachments_eq]
          change (Except.mapError _ (attachmentItems _) >>= _) =
            Except.mapError _ (attachmentItems _ >>= _)
          cases attachmentItems ((Json.getD members "attachments" (.arr [])).orElse (.arr [])) with
          | error e => rfl
          | ok items =>
            change _ = Except.mapError _ (py.str user >>= _)
            rw [str_eq hstr hdeep]
            change _ = Except.mapError _ (py.str thread >>= _)
            rw [str_eq hstr hdeep]
            change _ = Except.mapError _ (py.str text >>= _)
            rw [str_eq hstr hdeep]
            change _ = Except.mapError _ (items.mapM py.str >>= _)
            rw [strs_eq hstr hdeep]
            rfl

end Agreement

end WebhookChannel

namespace SeaTalkChannel

variable (py : ParseLib)

def eventMessage (payload : Json) : Except String (Json × Json) := do
  let event ← py.item payload "event"
  let message ← py.item event "message"
  return (event, message)

def fields (event message : Json) : Except String Fields := do
  let body ← py.item message "text"
  let text ← py.item body "plain_text"
  let sender ← py.item event "sender"
  let user ← py.item sender "email"
  let thread ← py.item event "thread_id"
  return { user, thread, text }

/-- `SeaTalkChannel.parse_inbound`. -/
def parseInbound (raw : String) : Except PyError IncomingMessage := do
  let payload ← py.decode "malformed SeaTalk body: " raw
  let eventType ← dictGet payload "event_type" .null
  py.expect eventType "message_from_bot_subscriber" "unsupported SeaTalk event_type: "
  let em ← (eventMessage py payload).mapError (rejected "SeaTalk payload 缺少 event/message: ")
  let tag ← dictGet em.2 "tag" .null
  py.expect tag "text" "unsupported SeaTalk message tag: "
  let fields ← (fields py em.1 em.2).mapError (rejected "SeaTalk payload 缺少必需字段: ")
  let rawUserRef ← py.str fields.user
  let externalThreadKey ← py.str fields.thread
  let text ← py.str fields.text
  let messageId ← dictGet em.1 "message_id" .null
  return {
    channel := "seatalk", rawUserRef, externalThreadKey, text, messageId
    isCommand := text.startsWith "/" }

end SeaTalkChannel

end ClawEngine.Channels
