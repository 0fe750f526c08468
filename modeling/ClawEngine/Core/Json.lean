import Mathlib.Data.Rat.Defs
import Mathlib.Tactic.Common

/-!
# Python values that come from JSON

`Json` is what `json.loads` returns, with Python's own notions on it: truth, `==`, `int(..)` and
`dict.get`. A float is its exact value, the negative zero, an infinity or NaN; `==` takes the two
zeros as one number (`number?`). The members of an object are a list, looked up from its front.

`PyLib` collects the functions of Python's library whose results no statement below depends on:
the decoder of a text, the reading of a number from a text, and `repr`. Statements hold whatever
they answer.
-/

set_option autoImplicit false

namespace ClawEngine.Core

/-- A Python `float`; `finite 0` is the zero without a sign. -/
inductive PyFloat
  | finite (q : ℚ)
  | negZero
  | inf (negative : Bool)
  | nan
  deriving DecidableEq

/-- The exception classes the library's functions and the code's own expressions raise. -/
inductive PyErrorKind
  | attributeError | typeError | valueError | overflowError | recursionError | jsonDecodeError
  | unicodeDecodeError | osError | timeoutExpired | subprocessError
  deriving DecidableEq, Repr

/-- An exception: its class and its text. -/
structure PyError where
  kind : PyErrorKind
  text : String
  deriving DecidableEq, Repr

/-- A decoded JSON value. -/
inductive Json
  | null
  | bool (b : Bool)
  | int (i : Int)
  | float (x : PyFloat)
  | str (s : String)
  | arr (items : List Json)
  | obj (members : List (String × Json))

namespace Json

instance : Inhabited Json := ⟨.null⟩

/-- `bool(v)`. -/
def truthy : Json → Bool
  | .null => false
  | .bool b => b
  | .int i => i ≠ 0
  | .float (.finite q) => q ≠ 0
  | .float .negZero => false
  | .float _ => true
  | .str s => s ≠ ""
  | .arr items => !items.isEmpty
  | .obj members => !members.isEmpty

/-- `a or b`. -/
def orElse (a b : Json) : Json := if a.truthy then a else b

/-- A value where `None` says that there is none. -/
def toOption : Json → Option Json
  | .null => none
  | v => some v

/-- The members of an object, when the value is one. -/
def members? : Json → Option (List (String × Json))
  | .obj members => some members
  | _ => none

/-- The items of a list, when the value is one. -/
def items? : Json → Option (List Json)
  | .arr items => some items
  | _ => none

/-- `key in d`. -/
def has (members : List (String × Json)) (key : String) : Bool :=
  members.any fun m => m.1 == key

/-- `d.get(key, default)`. -/
def getD (members : List (String × Json)) (key : String) (default : Json) : Json :=
  match members.find? fun m => m.1 == key with
  | some m => m.2
  | none => default

/-- `d.get(key)`. -/
def get (members : List (String × Json)) (key : String) : Json := getD members key .null

/-- `v == text` for a literal text. -/
def isStr (v : Json) (text : String) : Bool :=
  match v with
  | .str s => s == text
  | _ => false

/-- The number a value compares as. -/
def number? : Json → Option PyFloat
  | .bool b => some (.finite (if b then 1 else 0))
  | .int i => some (.finite i)
  | .float .negZero => some (.finite 0)
  | .float x => some x
  | _ => none

mutual

/-- Equality as a container compares its items, which takes the decoder's one NaN as equal to
itself. -/
def sameItem : Json → Json → Bool
  | .null, .null => true
  | .str a, .str b => a == b
  | .arr as, .arr bs => sameItems as bs
  | .obj ms, .obj ns => ms.length == ns.length && sameMembers ms ns
  | a, b =>
    match a.number?, b.number? with
    | some x, some y => x = y
    | _, _ => false

def sameItems : List Json → List Json → Bool
  | [], [] => true
  | a :: as, b :: bs => sameItem a b && sameItems as bs
  | _, _ => false

def sameMembers : List (String × Json) → List (String × Json) → Bool
  | [], _ => true
  | (k, v) :: rest, ns => has ns k && sameItem v (get ns k) && sameMembers rest ns

end

/-- `a == b`. -/
def eq (a b : Json) : Bool :=
  match a, b with
  | .float .nan, .float .nan => false
  | a, b => sameItem a b

/-- `for x in v`: the items of a list, the characters of a text, the keys of an object. -/
def iterate : Json → Except PyError (List Json)
  | .arr items => .ok items
  | .str s => .ok (s.toList.map fun c => .str (String.singleton c))
  | .obj members => .ok (members.map fun m => .str m.1)
  | _ => .error ⟨.typeError, "object is not iterable"⟩

/-- `v.get(key, default)`: only an object has the method. -/
def callGet (v : Json) (key : String) (default : Json) : Except PyError Json :=
  match v with
  | .obj members => .ok (getD members key default)
  | _ => .error ⟨.attributeError, "object has no attribute 'get'"⟩

end Json

/-- The library functions whose results are left open. -/
structure PyLib where
  /-- `json.loads(text)`. -/
  loads : String → Except PyError Json
  /-- `int(text)`. -/
  intOfStr : String → Except PyError Int
  /-- `repr(value)`. -/
  repr : Json → String
  /-- `str(value)`. -/
  str : Json → String

/-- `int(v)`. -/
def Json.toInt (py : PyLib) : Json → Except PyError Int
  | .bool b => .ok (if b then 1 else 0)
  | .int i => .ok i
  | .float (.finite q) => .ok (q.num.tdiv q.den)
  | .float .negZero => .ok 0
  | .float (.inf _) => .error ⟨.overflowError, "cannot convert float infinity to integer"⟩
  | .float .nan => .error ⟨.valueError, "cannot convert float NaN to integer"⟩
  | .str s => py.intOfStr s
  | _ => .error ⟨.typeError, "int() argument must be a string or a number"⟩

/-- `c.isspace()`, the characters `str.strip()` removes. -/
def isSpace (c : Char) : Bool :=
  let n := c.toNat
  (9 ≤ n && n ≤ 13) || (28 ≤ n && n ≤ 32) || n == 0x85 || n == 0xa0 || n == 0x1680 ||
    (0x2000 ≤ n && n ≤ 0x200a) || n == 0x2028 || n == 0x2029 || n == 0x202f || n == 0x205f ||
    n == 0x3000

/-- `not text.strip()`. -/
def isBlank (text : String) : Bool := text.toList.all isSpace

/-- `text.strip()`. -/
def strip (text : String) : String :=
  String.ofList ((((text.toList.dropWhile isSpace).reverse).dropWhile isSpace).reverse)

end ClawEngine.Core
