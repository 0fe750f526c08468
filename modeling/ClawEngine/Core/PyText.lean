import ClawEngine.Core.Dict

/-!
# Texts of values

`repr` of the values the repository prints: texts, integers, `None`, dictionaries, sets and tuples
of texts. What depends on the interpreter is in `Interpreter`: which characters beyond ASCII its
Unicode tables call printable, and the order a set is iterated in.
-/

set_option autoImplicit false

namespace ClawEngine.Core

/-- The tables of an interpreter. `setOrder` is the iteration order of the set made of the elements
of a list, which depends on the order they were put in. -/
structure Interpreter where
  isPrintable : Char → Bool
  setOrder : List String → List String
  setOrder_perm : ∀ xs : List String, xs.Nodup → (setOrder xs).Perm xs

/-- The last `width` hexadecimal digits of `n`. -/
def hexDigits : (width : Nat) → (n : Nat) → List Char
  | 0, _ => []
  | width + 1, n => hexDigits width (n / 16) ++ [Nat.digitChar (n % 16)]

/-- How `repr` of a text in `quote`s writes one character. -/
def reprChar (py : Interpreter) (quote c : Char) : List Char :=
  if c = quote ∨ c = '\\' then ['\\', c]
  else if c = '\t' then ['\\', 't']
  else if c = '\n' then ['\\', 'n']
  else if c = '\r' then ['\\', 'r']
  else if c.toNat < 0x20 ∨ c.toNat = 0x7f then ['\\', 'x'] ++ hexDigits 2 c.toNat
  else if c.toNat < 0x7f ∨ py.isPrintable c then [c]
  else if c.toNat ≤ 0xff then ['\\', 'x'] ++ hexDigits 2 c.toNat
  else if c.toNat ≤ 0xffff then ['\\', 'u'] ++ hexDigits 4 c.toNat
  else ['\\', 'U'] ++ hexDigits 8 c.toNat

/-- `repr(s)` of a text: in double quotes only when it has single quotes and no double one. -/
def reprStr (py : Interpreter) (s : String) : String :=
  let quote := if '\'' ∈ s.toList ∧ '"' ∉ s.toList then '"' else '\''
  String.ofList ([quote] ++ s.toList.flatMap (reprChar py quote) ++ [quote])

theorem reprChar_ne_nil (py : Interpreter) (quote c : Char) : reprChar py quote c ≠ [] := by
  unfold reprChar
  split_ifs <;> simp only [List.cons_append, ne_eq, reduceCtorEq, not_false_eq_true]

theorem length_flatMap_reprChar (py : Interpreter) (quote : Char) (s : List Char) :
    s.length ≤ (s.flatMap (reprChar py quote)).length := by
  induction s with
  | nil => exact Nat.le_refl _
  | cons c cs ih =>
    have hpos := List.length_pos_iff.mpr (reprChar_ne_nil py quote c)
    simp only [List.flatMap_cons, List.length_append, List.length_cons]
    omega

/-- `repr` of a value that may be `None`. -/
def reprOption {A : Type} (repr : A → String) : Option A → String
  | none => "None"
  | some a => repr a

/-- `repr` of a dictionary of texts. -/
def reprDict (py : Interpreter) (d : Dict String String) : String :=
  "\x7b" ++ ", ".intercalate (d.items.map fun p => reprStr py p.1 ++ ": " ++ reprStr py p.2) ++
    "\x7d"

/-- `repr` of the set of the elements of a list. -/
def reprSet (py : Interpreter) (xs : List String) : String :=
  match py.setOrder xs with
  | [] => "set()"
  | ys => "\x7b" ++ ", ".intercalate (ys.map (reprStr py)) ++ "\x7d"

/-- `repr` of a list of texts. -/
def reprList (py : Interpreter) (xs : List String) : String :=
  "[" ++ ", ".intercalate (xs.map (reprStr py)) ++ "]"

/-- `repr` of a tuple of texts. -/
def reprTuple (py : Interpreter) : List String → String
  | [] => "()"
  | [x] => "(" ++ reprStr py x ++ ",)"
  | xs => "(" ++ ", ".intercalate (xs.map (reprStr py)) ++ ")"

end ClawEngine.Core
