import ClawEngine.Core.Act
import ClawEngine.Core.Outcome
import ClawEngine.Core.Repr
import ClawEngine.Observability.Tracer

/-!
# The OpenTelemetry span

`adapters/observability/otel/tracer.py`. `OtelTraceSpan` wraps a span of the OpenTelemetry API, of
which the calls that were made on it are kept, oldest first; they do not raise themselves.

What is recorded may be any Python value. Containers are trees; every other object is what it
answers when it is printed (`PyObject`), a container that contains itself included. `PyLib` is what
the texts depend on: the interpreter, the text of a float, and how many containers inside each other
the encoder and `repr` enter before they raise a `RecursionError`.
-/

set_option autoImplicit false

namespace ClawEngine.Observability

open ClawEngine.Core

/-! ## Values -/

/-- An object by what it answers. `scalar` is the answer of `isinstance` to whether it is a `str`, an
`int` or a `float`: it is where its class derives from one, and else its `__class__` is asked for,
which may throw. `json` and `key` are what the encoder writes for it as a value and as a key: for an
object the encoder knows nothing about, its `str` in quotes and a `TypeError`. -/
structure PyObject where
  scalar : Except Thrown Bool
  str : Except Thrown String
  repr : Except Thrown String
  json : Except Thrown String
  key : Except Thrown String
  className : Except Thrown String

/-- A Python value. -/
inductive PyVal
  | none
  | bool (b : Bool)
  | int (i : Int)
  | float (x : PyFloat)
  | str (s : String)
  | list (items : List PyVal)
  | tuple (items : List PyVal)
  | dict (members : List (PyVal × PyVal))
  | object (o : PyObject)

instance : Inhabited PyVal := ⟨.none⟩

/-- What the texts of values depend on. -/
structure TextLib where
  interpreter : Interpreter
  floats : FloatText
  encodeDepth : Nat
  reprDepth : Nat

/-! ## Texts -/

/-- `raise RecursionError`, where nothing more can be entered. -/
def entering {A : Type} (depth : Nat) (body : (below : Nat) → Except Thrown A) :
    Except Thrown A :=
  match depth with
  | 0 => .error ⟨true, "maximum recursion depth exceeded"⟩
  | below + 1 => body below

/-- `sys.int_info.default_max_str_digits`. -/
def maxStrDigits : Nat := 4300

/-- `str(i)`, of as many digits as may be written. -/
@[irreducible] def intText (i : Int) : Except Thrown String :=
  if i.natAbs < 10 ^ maxStrDigits then .ok (String.ofList (reprInt i))
  else .error ⟨true, "Exceeds the limit (4300 digits) for integer string conversion"⟩

/-- How the encoder writes one character of a text. -/
def jsonChar (c : Char) : List Char :=
  if c = '"' ∨ c = '\\' then ['\\', c]
  else if c = '\n' then ['\\', 'n']
  else if c = '\r' then ['\\', 'r']
  else if c = '\t' then ['\\', 't']
  else if c.toNat = 8 then ['\\', 'b']
  else if c.toNat = 12 then ['\\', 'f']
  else if c.toNat < 0x20 then ['\\', 'u'] ++ hexDigits 4 c.toNat
  else [c]

/-- A text in double quotes. -/
def jsonString (s : String) : String := String.ofList ('"' :: s.toList.flatMap jsonChar ++ ['"'])

/-- A float, where infinities and NaN have names of their own. -/
def jsonFloat (py : TextLib) : PyFloat → String
  | .inf negative => if negative then "-Infinity" else "Infinity"
  | .nan => "NaN"
  | x => String.ofList (py.floats.text x)

/-- A key of an object. -/
def encodeKey (py : TextLib) : PyVal → Except Thrown String
  | .str s => .ok (jsonString s)
  | .float x => .ok (jsonString (jsonFloat py x))
  | .bool b => .ok (jsonString (if b then "true" else "false"))
  | .none => .ok (jsonString "null")
  | .int i => (intText i).map jsonString
  | .object o => o.key
  | _ => .error ⟨true, "keys must be str, int, float, bool or None"⟩

section Texts

variable (py : TextLib)

mutual

/-- `json.dumps(value, default=str, ensure_ascii=False)`. -/
def encode : PyVal → (depth : Nat) → Except Thrown String
  | .none, _ => .ok "null"
  | .bool b, _ => .ok (if b then "true" else "false")
  | .int i, _ => intText i
  | .float x, _ => .ok (jsonFloat py x)
  | .str s, _ => .ok (jsonString s)
  | .list items, depth => entering depth fun below => do
      let texts ← encodeItems items below
      return "[" ++ ", ".intercalate texts ++ "]"
  | .tuple items, depth => entering depth fun below => do
      let texts ← encodeItems items below
      return "[" ++ ", ".intercalate texts ++ "]"
  | .dict members, depth => entering depth fun below => do
      let texts ← encodeMembers members below
      return "\x7b" ++ ", ".intercalate texts ++ "\x7d"
  | .object o, _ => o.json

def encodeItems : List PyVal → (depth : Nat) → Except Thrown (List String)
  | [], _ => .ok []
  | v :: rest, depth => do
    let text ← encode v depth
    let texts ← encodeItems rest depth
    return text :: texts

def encodeMembers : List (PyVal × PyVal) → (depth : Nat) → Except Thrown (List String)
  | [], _ => .ok []
  | (k, v) :: rest, depth => do
    let key ← encodeKey py k
    let text ← encode v depth
    let texts ← encodeMembers rest depth
    return (key ++ ": " ++ text) :: texts

end

/-- `repr` of a tuple whose items have these texts. -/
def tupleText : List String → String
  | [x] => "(" ++ x ++ ",)"
  | xs => "(" ++ ", ".intercalate xs ++ ")"

mutual

/-- `repr(value)`. -/
def reprOf : PyVal → (depth : Nat) → Except Thrown String
  | .none, depth => entering depth fun _ => .ok "None"
  | .bool b, depth => entering depth fun _ => .ok (if b then "True" else "False")
  | .int i, depth => entering depth fun _ => intText i
  | .float x, depth => entering depth fun _ => .ok (String.ofList (py.floats.text x))
  | .str s, depth => entering depth fun _ => .ok (reprStr py.interpreter s)
  | .list items, depth => entering depth fun below => do
      let texts ← reprItems items below
      return "[" ++ ", ".intercalate texts ++ "]"
  | .tuple items, depth => entering depth fun below => do
      let texts ← reprItems items below
      return tupleText texts
  | .dict members, depth => entering depth fun below => do
      let texts ← reprMembers members below
      return "\x7b" ++ ", ".intercalate texts ++ "\x7d"
  | .object o, depth => entering depth fun _ => o.repr

def reprItems : List PyVal → (depth : Nat) → Except Thrown (List String)
  | [], _ => .ok []
  | v :: rest, depth => do
    let text ← reprOf v depth
    let texts ← reprItems rest depth
    return text :: texts

def reprMembers : List (PyVal × PyVal) → (depth : Nat) → Except Thrown (List String)
  | [], _ => .ok []
  | (k, v) :: rest, depth => do
    let key ← reprOf k depth
    let text ← reprOf v depth
    let texts ← reprMembers rest depth
    return (key ++ ": " ++ text) :: texts

end

/-- `str(value)`, if `isinstance(value, _OTEL_SCALARS)`. -/
def scalarText : PyVal → Except Thrown (Option String)
  | .bool b => .ok (some (if b then "True" else "False"))
  | .int i => (intText i).map some
  | .float x => .ok (some (String.ofList (py.floats.text x)))
  | .str s => .ok (some s)
  | .object o => do if ← o.scalar then o.str.map some else .ok Option.none
  | _ => .ok Option.none

end Texts

/-- `type(value).__name__`. -/
def className : PyVal → Except Thrown String
  | .none => .ok "NoneType"
  | .bool _ => .ok "bool"
  | .int _ => .ok "int"
  | .float _ => .ok "float"
  | .str _ => .ok "str"
  | .list _ => .ok "list"
  | .tuple _ => .ok "tuple"
  | .dict _ => .ok "dict"
  | .object o => o.className

/-! ## _serialise -/

/-- `MAX_ATTR_LEN`. -/
def maxAttrLen : Nat := 4096

/-- `try: x` with `except Exception: fallback`. -/
def exceptException {A : Type} (x fallback : Except Thrown A) : Except Thrown A :=
  match x with
  | .ok a => .ok a
  | .error e => if e.isException then fallback else .error e

/-- The text of a value, in full. -/
def rendering (py : TextLib) (v : PyVal) : Except Thrown String :=
  scalarText py v >>= fun
    | some text => .ok text
    | none => exceptException (encode py v py.encodeDepth)
        (exceptException (reprOf py v py.reprDepth)
          ((className v).map fun name => "<unserialisable " ++ name ++ ">"))

/-- A text that is too long is cut. -/
def truncated (text : String) : String × Bool :=
  if maxAttrLen < text.length then (String.ofList (text.toList.take maxAttrLen), true)
  else (text, false)

/-- `_serialise`. -/
def serialise (py : TextLib) (v : PyVal) : Except Thrown (String × Bool) :=
  (rendering py v).map truncated

/-! ## OtelTraceSpan -/

inductive StatusCode
  | ok | error
  deriving DecidableEq, Repr

/-- A call on the span of the API. -/
inductive OtelCall
  | addEvent (name : String) (attributes : List (String × PyVal))
  | setStatus (code : StatusCode) (description : Option String)
  | setAttribute (key : String) (value : PyVal)
  | endSpan

/-- The wrapped span: whether it was finished, and the calls made on it. -/
@[ext] structure OtelTraceSpan where
  ended : Bool := false
  calls : List OtelCall := []

/-- The code of a span. -/
abbrev SpanAct (A : Type) := Act OtelTraceSpan Thrown A

namespace OtelTraceSpan

/-- A call on the span of the API. -/
def call (c : OtelCall) : SpanAct Unit := fun s => (.ok (), { s with calls := s.calls ++ [c] })

/-- The attribute of a value, and the one that says that it was cut. -/
def cutAttributes (key : String) (text : String × Bool) : List (String × PyVal) :=
  (key, .str text.1) :: if text.2 then [(key ++ ".truncated", .bool true)] else []

/-- The attributes of a value that was given. -/
def toolAttributes (py : TextLib) (key : String) : PyVal → Except Thrown (List (String × PyVal))
  | .none => .ok []
  | v => (serialise py v).map (cutAttributes key)

/-- `record_tool`. -/
def recordTool (py : TextLib) (name input output : PyVal) : SpanAct Unit := do
  let inputAttrs ← Act.readE fun _ => toolAttributes py "tool.input" input
  let outputAttrs ← Act.readE fun _ => toolAttributes py "tool.output" output
  call (.addEvent "tool" ([("tool.name", name)] ++ inputAttrs ++ outputAttrs))

/-- `self._ended = True`. -/
def markEnded : SpanAct Unit := fun s => (.ok (), { s with ended := true })

/-- `set_attribute` of the output, where there is one. -/
def setOutput (py : TextLib) (output : PyVal) : SpanAct Unit := do
  match output with
  | .none => pure ()
  | output =>
    let text ← Act.readE fun _ => serialise py output
    call (.setAttribute "claw.output" (.str text.1))
    if text.2 then call (.setAttribute "claw.output.truncated" (.bool true))

/-- `finish`. -/
def finish (py : TextLib) (output : PyVal) (error : Option String) : SpanAct Unit := do
  if ← Act.read (·.ended) then pure ()
  else
    markEnded
    match error with
    | some error =>
      call (.setStatus .error (some error))
      call (.setAttribute "claw.error" (.str error))
    | none =>
      call (.setStatus .ok none)
      setOutput py output
    call .endSpan

/-- `__exit__`, given what `str` of the exception answers where there is one. -/
def exit (py : TextLib) (exc : Option (Except Thrown String)) : SpanAct Bool := do
  if !(← Act.read (·.ended)) then
    match exc with
    | none => finish py .none none
    | some text =>
      let error ← Act.readE fun _ => text
      finish py .none (some error)
  return false

/-! ## What the methods do -/

section Effects

variable {py : TextLib} {output : PyVal} {error : Option String} {s : OtelTraceSpan}

/-- The span after more calls. -/
def after (s : OtelTraceSpan) (calls : List OtelCall) : OtelTraceSpan :=
  { s with calls := s.calls ++ calls }

/-- The calls that record a text. -/
def textCalls (text : String × Bool) : List OtelCall :=
  .setAttribute "claw.output" (.str text.1) ::
    if text.2 then [.setAttribute "claw.output.truncated" (.bool true)] else []

/-- The calls that record an output. -/
def outputCalls (py : TextLib) : PyVal → Except Thrown (List OtelCall)
  | .none => .ok []
  | v => (serialise py v).map textCalls

/-- The calls that record a verdict, and the output with it. -/
def verdictCalls (py : TextLib) (output : PyVal) : (error : Option String) →
    Except Thrown (List OtelCall)
  | some error => .ok [.setStatus .error (some error), .setAttribute "claw.error" (.str error)]
  | none => (outputCalls py output).map fun calls => .setStatus .ok none :: calls

theorem setOutput_given (h : output ≠ .none) : setOutput py output = (do
    let text ← Act.readE fun _ => serialise py output
    call (.setAttribute "claw.output" (.str text.1))
    if text.2 then call (.setAttribute "claw.output.truncated" (.bool true))) := by
  cases output <;> first | exact absurd rfl h | rfl

theorem outputCalls_given (h : output ≠ .none) :
    outputCalls py output = (serialise py output).map textCalls := by
  cases output <;> first | exact absurd rfl h | rfl

theorem setOutput_eq (py : TextLib) (output : PyVal) (s : OtelTraceSpan) :
    setOutput py output s = match outputCalls py output with
      | .ok calls => (.ok (), s.after calls)
      | .error e => (.error e, s) := by
  by_cases hnone : output = .none
  · subst hnone
    exact congrArg (fun calls => (Except.ok (), { s with calls })) (List.append_nil _).symm
  · rw [setOutput_given hnone, outputCalls_given hnone]
    generalize serialise py output = x
    rcases x with e | ⟨text, cut⟩
    · rfl
    · cases cut with
      | true =>
        have hcalls : ∀ c d : OtelCall, s.calls ++ [c] ++ [d] = s.calls ++ [c, d] := fun c d =>
          List.append_assoc _ _ _
        exact congrArg (fun calls => (Except.ok (), { s with calls })) (hcalls _ _)
      | false => rfl

/-- A span that was finished stays as it is. -/
theorem finish_ended (h : s.ended = true) : finish py output error s = (.ok (), s) := by
  obtain ⟨ended, calls⟩ := s
  cases h
  rfl

/-- Without an error, the status is set before the output is. -/
theorem finish_output (py : TextLib) (output : PyVal) (before : List OtelCall) :
    finish py output none ⟨false, before⟩ =
      Act.bind (setOutput py output) (fun _ => call .endSpan)
        ⟨true, before ++ [.setStatus .ok none]⟩ := rfl

/-- The first `finish` records its verdict and ends the span. -/
theorem finish_open (h : s.ended = false) {calls : List OtelCall}
    (hcalls : verdictCalls py output error = .ok calls) :
    finish py output error s =
      (.ok (), { ended := true, calls := s.calls ++ calls ++ [.endSpan] }) := by
  obtain ⟨ended, before⟩ := s
  cases h
  cases error with
  | some error =>
    cases hcalls
    have hassoc : ∀ c d : OtelCall, before ++ [c] ++ [d] = before ++ [c, d] := fun c d =>
      List.append_assoc _ _ _
    exact congrArg (fun calls => (Except.ok (), OtelTraceSpan.mk true (calls ++ [.endSpan])))
      (hassoc _ _)
  | none =>
    obtain ⟨recorded, hrecorded, rfl⟩ := map_eq_ok.mp hcalls
    rw [finish_output, Act.bind, setOutput_eq, hrecorded]
    have hassoc : ∀ c : OtelCall, before ++ [c] ++ recorded = before ++ c :: recorded := fun c =>
      List.append_assoc _ _ _
    exact congrArg (fun calls => (Except.ok (), OtelTraceSpan.mk true (calls ++ [.endSpan])))
      (hassoc _)

/-- A tool is recorded once both values have a text. -/
theorem recordTool_ok {name input : PyVal} {inputAttrs outputAttrs : List (String × PyVal)}
    (hin : toolAttributes py "tool.input" input = .ok inputAttrs)
    (hout : toolAttributes py "tool.output" output = .ok outputAttrs) :
    recordTool py name input output s = (.ok (),
      s.after [.addEvent "tool" ([("tool.name", name)] ++ inputAttrs ++ outputAttrs)]) := by
  change Act.bind (Act.readE fun _ => toolAttributes py "tool.input" input) _ s = _
  rw [Act.bind, Act.readE, hin]
  change Act.bind (Act.readE fun _ => toolAttributes py "tool.output" output) _ s = _
  rw [Act.bind, Act.readE, hout]
  rfl

theorem exit_ended {exc : Option (Except Thrown String)} (h : s.ended = true) :
    exit py exc s = (.ok false, s) := by
  obtain ⟨ended, calls⟩ := s
  cases h
  rfl

/-- A tool that is recorded, or not, leaves the flag. -/
theorem recordTool_flag (py : TextLib) (name input output : PyVal) (s : OtelTraceSpan) :
    (recordTool py name input output s).2.ended = s.ended := by
  have hkeeps : Act.Keeps (fun s' => s'.ended = s.ended) (recordTool py name input output) :=
    (Act.keeps_readE _).bind fun _ => (Act.keeps_readE _).bind fun _ => fun _ h => h
  exact hkeeps s rfl

/-- What `str` of the exception raised leaves an open span, and the span is as it was. -/
theorem exit_raised {exc : Option (Except Thrown String)} {e : Thrown} (h : s.ended = false)
    (hexc : excText exc = .error e) : exit py exc s = (.error e, s) := by
  obtain ⟨ended, calls⟩ := s
  cases h
  cases exc with
  | none => cases hexc
  | some text =>
    cases text with
    | error e' =>
      cases hexc
      rfl
    | ok text => cases hexc

/-- The first `__exit__` ends the span as `finish` does, and answers that it swallowed nothing. -/
theorem exit_open {exc : Option (Except Thrown String)} (h : s.ended = false)
    (hexc : excText exc = .ok error) {calls : List OtelCall}
    (hcalls : verdictCalls py .none error = .ok calls) :
    exit py exc s =
      (.ok false, { ended := true, calls := s.calls ++ calls ++ [.endSpan] }) := by
  have hfinish := finish_open h hcalls
  obtain ⟨ended, before⟩ := s
  cases h
  cases exc with
  | none =>
    cases hexc
    have hexit : exit py none ⟨false, before⟩ =
        match finish py .none none ⟨false, before⟩ with
        | (.error e, s) => (.error e, s)
        | (.ok _, s) => (.ok false, s) := rfl
    rw [hexit, hfinish]
  | some text =>
    cases text with
    | error e => cases hexc
    | ok text =>
      cases hexc
      have hexit : exit py (some (.ok text)) ⟨false, before⟩ =
          match finish py .none (some text) ⟨false, before⟩ with
          | (.error e, s) => (.error e, s)
          | (.ok _, s) => (.ok false, s) := rfl
      rw [hexit, hfinish]

/-- `__exit__` raises nothing but what `str` of the exception did, on a span that is open. -/
theorem exit_answer (py : TextLib) (exc : Option (Except Thrown String)) (s : OtelTraceSpan) :
    ((exit py exc s).1.map fun _ => ()) =
      if !s.ended then (excText exc).map fun _ => () else .ok () := by
  cases h : s.ended with
  | true =>
    rw [exit_ended h]
    rfl
  | false =>
    cases hexc : excText exc with
    | error e =>
      rw [exit_raised h hexc]
      rfl
    | ok error =>
      obtain ⟨calls, hcalls⟩ : ∃ calls, verdictCalls py .none error = .ok calls := by
        cases error <;> exact ⟨_, rfl⟩
      rw [exit_open h hexc hcalls]
      rfl

end Effects

end OtelTraceSpan

end ClawEngine.Observability
