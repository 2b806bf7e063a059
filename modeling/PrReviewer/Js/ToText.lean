import PrReviewer.Js.Join
import PrReviewer.Js.Text

/-!
# The text of a value

What `String(value)`, a template literal and a regular expression read of parsed JSON. An object that has a field
`toString` has no text: the conversion throws a `TypeError`.
-/

namespace Js

mutual

/-- `String(value)` of parsed JSON, nothing where it throws: an object with an own `toString`, which is no function, is
no primitive value. -/
def toText : Value → Option String
  | .undefined => some "undefined"
  | .null => some "null"
  | .bool b => some (if b then "true" else "false")
  | .number x => some (numberToString x)
  | .count n => some (toString n)
  | .string s => some s
  | .array xs => (elementTexts xs).map fun texts => String.ofList (join ',' texts)
  | .object fields => if (fields.lookup "toString").isSome then none else some "[object Object]"

/-- The texts of the elements; `null` and `undefined` have the empty one. -/
def elementTexts : List Value → Option (List (List Char))
  | [] => some []
  | .undefined :: xs => (elementTexts xs).map ([] :: ·)
  | .null :: xs => (elementTexts xs).map ([] :: ·)
  | x :: xs => (toText x).bind fun text => (elementTexts xs).map (text.toList :: ·)

end

end Js
