import ClawEngine.Channels.Inbound

/-!
# What leaves the parsers of inbound texts

A parser is settled by a text when it raises a `ValueError` or returns a message whose id is `None`
or a text. Each statement of a parser has a rule that says when it ends well (`ends_decode` to
`ends_strs`), and the rules together say when the parser does: exactly if the decoder raises no other
exception, no value that is turned into a text is nested too deeply, the `message_id` of a payload
that is otherwise accepted is `None` or a text, and, for SeaTalk, the payload is a dictionary and the
message of its event, if there is one, is another.
-/

set_option autoImplicit false

namespace ClawEngine.Channels

open ClawEngine.Core

/-- `value.get(key, default)` of a dictionary. -/
def valueOr (v : Json) (key : String) (default : Json) : Json := (v.item? key).getD default

/-- The exception is a `ValueError`, or the message has the types it declares. -/
def Settled (x : Except PyError IncomingMessage) : Prop :=
  Ends (fun e => e.kind.isValueError = true) (fun msg => msg.messageId.isOptionalText = true) x

/-! ## When they settle -/

/-- If the decoder refuses the text, it does with a `ValueError`. -/
def ParseLib.RefusesByValue (py : ParseLib) (raw : String) : Prop :=
  ∀ e, py.loads raw = .error e → e.kind.isValueError = true

/-- The condition on a text for the webhook. -/
def WebhookChannel.Ordinary (py : ParseLib) (raw : String) : Prop :=
  py.RefusesByValue raw ∧ ∀ payload, py.loads raw = .ok payload →
    ∀ user thread text, payload.lookup ["user"] = some user →
      payload.lookup ["thread"] = some thread → payload.lookup ["text"] = some text →
      ∀ items, (valueOr payload "attachments" (.arr [])).orElse (.arr []) = .arr items →
        (∀ v ∈ user :: thread :: text :: items, py.strFails v = false) ∧
          (valueOr payload "message_id" .null).isOptionalText = true

/-- The condition on a text for SeaTalk. -/
def SeaTalkChannel.Ordinary (py : ParseLib) (raw : String) : Prop :=
  py.RefusesByValue raw ∧ ∀ payload, py.loads raw = .ok payload →
    payload.members?.isSome = true ∧
    ((valueOr payload "event_type" .null).isStr "message_from_bot_subscriber" = false →
      py.reprFails (valueOr payload "event_type" .null) = false) ∧
    ((valueOr payload "event_type" .null).isStr "message_from_bot_subscriber" = true →
      ∀ event message, payload.lookup ["event"] = some event →
        payload.lookup ["event", "message"] = some message →
        message.members?.isSome = true ∧
        ((valueOr message "tag" .null).isStr "text" = false →
          py.reprFails (valueOr message "tag" .null) = false) ∧
        ((valueOr message "tag" .null).isStr "text" = true →
          ∀ user thread text, event.lookup ["sender", "email"] = some user →
            event.lookup ["thread_id"] = some thread →
            message.lookup ["text", "plain_text"] = some text →
            (∀ v ∈ [user, thread, text], py.strFails v = false) ∧
              (valueOr event "message_id" .null).isOptionalText = true))

/-! ## Rules -/

section Rules

variable {py : ParseLib} {v w : Json} {key : String}

/-- The exception is a `ValueError`, or the value satisfies `P`. -/
abbrev EndsWell {A : Type} (P : A → Prop) (x : Except PyError A) : Prop :=
  Ends (fun e => e.kind.isValueError = true) P x

theorem endsWell_bind {A B : Type} {P : B → Prop} {x : Except PyError A}
    {f : A → Except PyError B} : EndsWell P (x >>= f) ↔ EndsWell (fun a => EndsWell P (f a)) x :=
  ends_bind_iff

theorem ends_decode {P : Json → Prop} {malformed raw : String} :
    EndsWell P (py.decode malformed raw) ↔
      py.RefusesByValue raw ∧ ∀ payload, py.loads raw = .ok payload → P payload := by
  unfold ParseLib.decode ParseLib.RefusesByValue
  cases py.loads raw with
  | error e =>
    have hkind : (if e.kind = .jsonDecodeError then
        ⟨.valueError, malformed ++ e.text⟩ else e : PyError).kind.isValueError =
        e.kind.isValueError := by
      split_ifs with h
      · rw [h]; rfl
      · rfl
    simp only [Except.mapError, EndsWell, ends_error, hkind, Except.error.injEq, forall_eq',
      reduceCtorEq, false_implies, implies_true, and_true]
  | ok payload =>
    simp only [Except.mapError, EndsWell, ends_ok, reduceCtorEq, false_implies, implies_true,
      Except.ok.injEq, forall_eq', true_and]

theorem ends_rejected {A : Type} {P : A → Prop} {x : Except String A} {text : String} :
    EndsWell P (x.mapError (rejected text)) ↔ ∀ a, x = .ok a → P a := by
  cases x with
  | error e =>
    simp only [Except.mapError, EndsWell, ends_error, rejected, PyErrorKind.isValueError,
      reduceCtorEq, false_implies, implies_true]
  | ok a => simp only [Except.mapError, EndsWell, ends_ok, Except.ok.injEq, forall_eq']

theorem beq_of_find? {members : List (String × Json)} {m : String × Json}
    (h : members.find? (fun m => m.1 == key) = some m) : (m.1 == key) = true :=
  List.find?_some (p := fun m : String × Json => m.1 == key) h

theorem getD_eq_valueOr {members : List (String × Json)} {default : Json} :
    Json.getD members key default = valueOr (.obj members) key default := by
  unfold valueOr Json.item? Json.members? Json.has Json.get Json.getD
  cases hfind : members.find? fun m => m.1 == key with
  | none =>
    have hnone : members.any (fun m => m.1 == key) = false := by
      rw [List.any_eq_false]
      exact fun m hm => List.find?_eq_none.mp hfind m hm
    simp only [hnone, Bool.false_eq_true, if_false, Option.getD_none]
  | some m =>
    have hsome : members.any (fun m => m.1 == key) = true :=
      List.any_eq_true.mpr ⟨m, List.mem_of_find?_eq_some hfind, beq_of_find? hfind⟩
    simp only [hsome, if_true, Option.getD_some, hfind]

theorem ends_dictGet {P : Json → Prop} {default : Json} :
    EndsWell P (dictGet v key default) ↔
      v.members?.isSome = true ∧ P (valueOr v key default) := by
  cases v with
  | obj members =>
    simp only [dictGet, EndsWell, ends_ok, Json.members?, Option.isSome_some, true_and,
      getD_eq_valueOr]
  | _ =>
    simp only [dictGet, EndsWell, ends_error, PyErrorKind.isValueError, Json.members?,
      Option.isSome_none, Bool.false_eq_true, false_and]

theorem ends_str {P : String → Prop} : EndsWell P (py.str v) ↔
    py.strFails v = false ∧ P (String.ofList (strValue py.interpreter py.floats v)) := by
  unfold ParseLib.str
  cases py.strFails v with
  | true =>
    simp only [if_true, EndsWell, ends_error, PyErrorKind.isValueError, Bool.false_eq_true,
      Bool.true_eq_false, false_and]
  | false => simp only [Bool.false_eq_true, if_false, EndsWell, ends_ok, true_and]

theorem ends_strs {P : List String → Prop} {items : List Json} :
    EndsWell P (items.mapM py.str) ↔ (∀ v ∈ items, py.strFails v = false) ∧
      P (items.map fun v => String.ofList (strValue py.interpreter py.floats v)) := by
  induction items generalizing P with
  | nil => exact ⟨fun h => ⟨List.forall_mem_nil _, h⟩, fun h => h.2⟩
  | cons v items ih =>
    rw [List.mapM_cons, endsWell_bind, ends_str, endsWell_bind, ih, List.forall_mem_cons, and_assoc]
    exact Iff.rfl

theorem ends_expect {P : Unit → Prop} {literal unsupported : String} :
    EndsWell P (py.expect v literal unsupported) ↔
      (v.isStr literal = false → py.reprFails v = false) ∧ (v.isStr literal = true → P ()) := by
  unfold ParseLib.expect ParseLib.repr
  cases v.isStr literal with
  | true =>
    simp only [if_true, EndsWell, ends_ok, reduceCtorEq, false_implies, true_implies, true_and]
  | false =>
    simp only [Bool.false_eq_true, if_false, EndsWell, ends_bind_iff, true_implies, false_implies,
      and_true]
    cases py.reprFails v with
    | true =>
      simp only [if_true, ends_error, PyErrorKind.isValueError, Bool.false_eq_true,
        Bool.true_eq_false]
    | false =>
      simp only [Bool.false_eq_true, if_false, ends_ok, ends_error, PyErrorKind.isValueError]

theorem ends_attachmentItems {P : List Json → Prop} :
    EndsWell P (WebhookChannel.attachmentItems v) ↔ ∀ items, v = .arr items → P items := by
  cases v with
  | arr items =>
    simp only [WebhookChannel.attachmentItems, EndsWell, ends_ok, Json.arr.injEq, forall_eq']
  | _ =>
    simp only [WebhookChannel.attachmentItems, EndsWell, ends_error, PyErrorKind.isValueError,
      reduceCtorEq, false_implies, implies_true]

theorem item_eq_ok : py.item v key = .ok w ↔ v.item? key = some w := by
  unfold ParseLib.item
  cases v.item? key with
  | none => simp only [reduceCtorEq]
  | some w' => simp only [Except.ok.injEq, Option.some.injEq]

theorem lookup_one : v.lookup [key] = v.item? key := by
  unfold Json.lookup
  rw [List.foldlM_cons]
  cases v.item? key <;> rfl

theorem lookup_two {next : String} : v.lookup [key, next] = (v.item? key).bind (·.item? next) := by
  unfold Json.lookup
  rw [List.foldlM_cons]
  cases v.item? key with
  | none => rfl
  | some w =>
    change [next].foldlM Json.item? w = w.item? next
    exact lookup_one

end Rules

/-! ## The parsers -/

section Parsers

variable (py : ParseLib) (raw : String)

theorem WebhookChannel.fields_eq_ok {payload : Json} {f : Fields} :
    fields py payload = .ok f ↔ payload.item? "user" = some f.user ∧
      payload.item? "thread" = some f.thread ∧ payload.item? "text" = some f.text := by
  unfold fields
  constructor
  · intro h
    obtain ⟨user, huser, h⟩ := except_bind_eq_ok.mp h
    obtain ⟨thread, hthread, h⟩ := except_bind_eq_ok.mp h
    obtain ⟨text, htext, h⟩ := except_bind_eq_ok.mp h
    cases h
    exact ⟨item_eq_ok.mp huser, item_eq_ok.mp hthread, item_eq_ok.mp htext⟩
  · rintro ⟨huser, hthread, htext⟩
    rw [item_eq_ok.mpr huser, item_eq_ok.mpr hthread, item_eq_ok.mpr htext]
    rfl

theorem isDict_of_item? {v w : Json} {key : String} (h : v.item? key = some w) :
    v.members?.isSome = true := by
  unfold Json.item? at h
  cases hm : v.members? with
  | none =>
    rw [hm] at h
    cases h
  | some members => rfl

/-- **When the webhook's parser settles a text.** -/
theorem WebhookChannel.settled_iff : Settled (parseInbound py raw) ↔ Ordinary py raw := by
  unfold parseInbound Ordinary
  change EndsWell _ _ ↔ _
  rw [endsWell_bind, ends_decode]
  refine and_congr_right' (forall₂_congr fun payload _ => ?_)
  rw [endsWell_bind, ends_rejected]
  simp only [endsWell_bind, ends_dictGet, ends_attachmentItems, ends_str, ends_strs, lookup_one,
    fields_eq_ok]
  constructor
  · intro h user thread text huser hthread htext items hitems
    obtain ⟨-, hgiven⟩ := h ⟨user, thread, text⟩ ⟨huser, hthread, htext⟩
    obtain ⟨hus, hth, hte, -, his, hid⟩ := hgiven items hitems
    exact ⟨List.forall_mem_cons.mpr ⟨hus, List.forall_mem_cons.mpr ⟨hth,
      List.forall_mem_cons.mpr ⟨hte, his⟩⟩⟩, hid⟩
  · rintro h f ⟨huser, hthread, htext⟩
    have hdict := isDict_of_item? huser
    refine ⟨hdict, fun items hitems => ?_⟩
    obtain ⟨hshown, hid⟩ := h f.user f.thread f.text huser hthread htext items hitems
    obtain ⟨hus, hshown⟩ := List.forall_mem_cons.mp hshown
    obtain ⟨hth, hshown⟩ := List.forall_mem_cons.mp hshown
    obtain ⟨hte, his⟩ := List.forall_mem_cons.mp hshown
    exact ⟨hus, hth, hte, hdict, his, hid⟩

theorem SeaTalkChannel.eventMessage_eq_ok {payload : Json} {em : Json × Json} :
    eventMessage py payload = .ok em ↔
      payload.item? "event" = some em.1 ∧ em.1.item? "message" = some em.2 := by
  unfold eventMessage
  constructor
  · intro h
    obtain ⟨event, hevent, h⟩ := except_bind_eq_ok.mp h
    obtain ⟨message, hmessage, h⟩ := except_bind_eq_ok.mp h
    cases h
    exact ⟨item_eq_ok.mp hevent, item_eq_ok.mp hmessage⟩
  · rintro ⟨hevent, hmessage⟩
    rw [item_eq_ok.mpr hevent]
    change (py.item em.1 "message" >>= _) = _
    rw [item_eq_ok.mpr hmessage]
    rfl

theorem SeaTalkChannel.fields_eq_ok {event message : Json} {f : Fields} :
    fields py event message = .ok f ↔ message.lookup ["text", "plain_text"] = some f.text ∧
      event.lookup ["sender", "email"] = some f.user ∧
      event.lookup ["thread_id"] = some f.thread := by
  unfold fields
  simp only [lookup_one, lookup_two, Option.bind_eq_some_iff]
  constructor
  · intro h
    obtain ⟨body, hbody, h⟩ := except_bind_eq_ok.mp h
    obtain ⟨text, htext, h⟩ := except_bind_eq_ok.mp h
    obtain ⟨sender, hsender, h⟩ := except_bind_eq_ok.mp h
    obtain ⟨user, huser, h⟩ := except_bind_eq_ok.mp h
    obtain ⟨thread, hthread, h⟩ := except_bind_eq_ok.mp h
    cases h
    exact ⟨⟨body, item_eq_ok.mp hbody, item_eq_ok.mp htext⟩,
      ⟨sender, item_eq_ok.mp hsender, item_eq_ok.mp huser⟩, item_eq_ok.mp hthread⟩
  · rintro ⟨⟨body, hbody, htext⟩, ⟨sender, hsender, huser⟩, hthread⟩
    refine except_bind_eq_ok.mpr ⟨body, item_eq_ok.mpr hbody, ?_⟩
    refine except_bind_eq_ok.mpr ⟨f.text, item_eq_ok.mpr htext, ?_⟩
    refine except_bind_eq_ok.mpr ⟨sender, item_eq_ok.mpr hsender, ?_⟩
    refine except_bind_eq_ok.mpr ⟨f.user, item_eq_ok.mpr huser, ?_⟩
    exact except_bind_eq_ok.mpr ⟨f.thread, item_eq_ok.mpr hthread, rfl⟩

/-- **When SeaTalk's parser settles a text.** -/
theorem SeaTalkChannel.settled_iff : Settled (parseInbound py raw) ↔ Ordinary py raw := by
  unfold parseInbound Ordinary
  change EndsWell _ _ ↔ _
  rw [endsWell_bind, ends_decode]
  refine and_congr_right' (forall₂_congr fun payload _ => ?_)
  rw [endsWell_bind, ends_dictGet, endsWell_bind, ends_expect]
  refine and_congr_right' (and_congr_right' (imp_congr_right fun _ => ?_))
  rw [endsWell_bind, ends_rejected]
  simp only [endsWell_bind, ends_dictGet, ends_expect, ends_rejected, ends_str,
    eventMessage_eq_ok, fields_eq_ok]
  constructor
  · intro h event message hevent hmessage
    rw [lookup_one] at hevent
    rw [lookup_two, hevent, Option.bind_some] at hmessage
    obtain ⟨hdict, htag, htext⟩ := h (event, message) ⟨hevent, hmessage⟩
    refine ⟨hdict, htag, fun hshown user thread text huser hthread hbody => ?_⟩
    obtain ⟨hus, hth, hte, -, hid⟩ :=
      htext hshown ⟨user, thread, text⟩ ⟨hbody, huser, hthread⟩
    exact ⟨List.forall_mem_cons.mpr ⟨hus, List.forall_mem_cons.mpr ⟨hth,
      List.forall_mem_cons.mpr ⟨hte, List.forall_mem_nil _⟩⟩⟩, hid⟩
  · rintro h ⟨event, message⟩ ⟨hevent, hmessage⟩
    have hpath : payload.lookup ["event", "message"] = some message := by
      rw [lookup_two, hevent]
      exact hmessage
    obtain ⟨hdict, htag, htext⟩ := h event message (lookup_one.trans hevent) hpath
    refine ⟨hdict, htag, fun hshown => ?_⟩
    rintro f ⟨hbody, huser, hthread⟩
    obtain ⟨hfields, hid⟩ := htext hshown f.user f.thread f.text huser hthread hbody
    obtain ⟨hus, hfields⟩ := List.forall_mem_cons.mp hfields
    obtain ⟨hth, hfields⟩ := List.forall_mem_cons.mp hfields
    obtain ⟨hte, -⟩ := List.forall_mem_cons.mp hfields
    exact ⟨hus, hth, hte, isDict_of_item? hmessage, hid⟩

end Parsers

/-- **When the parsers settle a text**: the webhook's and SeaTalk's. -/
theorem parse_settled_iff (py : ParseLib) (raw : String) :
    (Settled (WebhookChannel.parseInbound py raw) ↔ WebhookChannel.Ordinary py raw) ∧
      (Settled (SeaTalkChannel.parseInbound py raw) ↔ SeaTalkChannel.Ordinary py raw) :=
  ⟨WebhookChannel.settled_iff py raw, SeaTalkChannel.settled_iff py raw⟩

/-! ## Two payloads -/

/-- A decoder of some texts. -/
def decodes (texts : List (String × Json)) : ParseLib where
  interpreter := asciiInterpreter
  floats := wholeFloats
  loads raw :=
    match texts.find? (·.1 = raw) with
    | some text => .ok text.2
    | none => .error ⟨.jsonDecodeError, "Expecting value: line 1 column 1 (char 0)"⟩
  subscriptText v :=
    match v with
    | .arr _ => "list indices must be integers or slices, not str"
    | .str _ => "string indices must be integers, not 'str'"
    | v => "'" ++ typeName v ++ "' object is not subscriptable"
  strTooDeep _ := false
  reprTooDeep _ := false

/-- A webhook payload with a number for its id. -/
def numberedPayload : Json :=
  .obj [("user", .str "u"), ("thread", .str "t"), ("text", .str "hi"), ("message_id", .int 5)]

/-- A list makes SeaTalk's parser raise an `AttributeError`, and a number is a message id. -/
theorem parse_not_settled :
    let listed := SeaTalkChannel.parseInbound (decodes [("[]", .arr [])]) "[]"
    let raw := "\x7b\"user\":\"u\",\"thread\":\"t\",\"text\":\"hi\",\"message_id\":5\x7d"
    let numbered := WebhookChannel.parseInbound (decodes [(raw, numberedPayload)]) raw
    listed = .error ⟨.attributeError, "'list' object has no attribute 'get'"⟩ ∧ ¬ Settled listed ∧
      numbered.toOption.map (·.messageId) = some (.int 5) ∧ ¬ Settled numbered := by
  intro listed raw numbered
  refine ⟨rfl, ?_, rfl, ?_⟩
  · exact Bool.false_ne_true
  · exact Bool.false_ne_true

end ClawEngine.Channels
