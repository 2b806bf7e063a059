import PrReviewer.Model.Verdict

/-!
# The JSON of an answer

`tryDecodeJson text`: the most verdict-like JSON value in a text, from three scans. Each scan but the first
runs over a text that a repair pass has changed.

The indexes of the source are what is left of the text. A scan goes through the text once: `skip` counts the
characters of a value that was decoded already.
-/

open Js

namespace PrReviewer.Model

/-! ## Repair passes -/

/-- `escapeRawNewlinesInStrings`, with the states `inString` and `escapeNext`. -/
def escapeRawNewlines : Bool → Bool → List Char → List Char
  | _, _, [] => []
  | inString, true, c :: cs => c :: escapeRawNewlines inString false cs
  | inString, false, c :: cs =>
    if c = '\\' then c :: escapeRawNewlines inString true cs
    else if c = '"' then c :: escapeRawNewlines (!inString) false cs
    else if inString && c = '\n' then '\\' :: 'n' :: escapeRawNewlines inString false cs
    else c :: escapeRawNewlines inString false cs

def isHexDigit (c : Char) : Bool := (Json.hexValue c).isSome

/-- The number of characters behind a backslash that make a valid escape with it, 0 if they make none. -/
def escapeLength : List Char → Nat
  | 'u' :: a :: b :: c :: d :: _ =>
    if isHexDigit a && isHexDigit b && isHexDigit c && isHexDigit d then 5 else 0
  | c :: _ => if (Json.escaped c).isSome then 1 else 0
  | [] => 0

/-- `escapeInvalidBackslashes`, with the state `inString`; the next `skip` characters belong to an escape. -/
def escapeInvalidBackslashes : Bool → Nat → List Char → List Char
  | _, _, [] => []
  | inString, skip + 1, c :: cs => c :: escapeInvalidBackslashes inString skip cs
  | inString, 0, c :: cs =>
    if inString && c = '\\' then
      if escapeLength cs = 0 then '\\' :: '\\' :: escapeInvalidBackslashes inString 0 cs
      else c :: escapeInvalidBackslashes inString (escapeLength cs) cs
    else if c = '"' then c :: escapeInvalidBackslashes (!inString) 0 cs
    else c :: escapeInvalidBackslashes inString 0 cs

/-! ## Scan -/

def isOpening (c : Char) : Bool := c = '{' || c = '['

def isClosing (c : Char) : Bool := c = '}' || c = ']'

/-- The text up to the bracket that closes the first one, with the states of `decodeAt`. -/
def enclosed : Nat → Bool → Bool → List Char → Option (List Char)
  | _, _, _, [] => none
  | depth, true, true, c :: cs => (enclosed depth true false cs).map (c :: ·)
  | depth, true, false, c :: cs =>
    (if c = '\\' then enclosed depth true true cs
      else if c = '"' then enclosed depth false false cs
      else enclosed depth true false cs).map (c :: ·)
  | depth, false, _, c :: cs =>
    if c = '"' then (enclosed depth true false cs).map (c :: ·)
    else if isOpening c then (enclosed (depth + 1) false false cs).map (c :: ·)
    else if isClosing c then
      if depth - 1 = 0 then some [c] else (enclosed (depth - 1) false false cs).map (c :: ·)
    else (enclosed depth false false cs).map (c :: ·)

/-- `decodeAt`: the value that starts a text, with the number of its characters. -/
def decodeAt (source : List Char) : Option (Value × Nat) :=
  if source.head?.any isOpening then
    (enclosed 0 false false source).bind fun slice =>
      (Json.parse (String.ofList slice)).map fun value => (value, slice.length)
  else none

/-- The decoded values of a text, each read behind the one before. -/
def candidates : Nat → List Char → List Value
  | _, [] => []
  | skip + 1, _ :: cs => candidates skip cs
  | 0, c :: cs =>
    match decodeAt (c :: cs) with
    | some (value, consumed) => value :: candidates (consumed - 1) cs
    | none => candidates 0 cs

def hasKey (key : String) : Value → Bool
  | .object fields => fields.any (·.1 = key)
  | _ => false

def isCompleteVerdict (value : Value) : Bool := hasKey "verdict" value && hasKey "review_markdown" value

def isPartialVerdict (value : Value) : Bool := hasKey "verdict" value || hasKey "review_markdown" value

def isArray : Value → Bool
  | .array _ => true
  | _ => false

/-- The last complete verdict, else the last partial one, else the first object, else the first array. -/
def preferred (values : List Value) : Option Value :=
  match (values.filter isCompleteVerdict).getLast? with
  | some value => some value
  | none =>
    match (values.filter isPartialVerdict).getLast? with
    | some value => some value
    | none =>
      match values.find? isRecord with
      | some value => some value
      | none => values.find? isArray

/-- `scanJsonValues`. -/
def scanJsonValues (text : List Char) : Option Value := preferred (candidates 0 text)

/-- `tryDecodeJson`, `none` where it returns `null`. -/
def tryDecodeJson (text : List Char) : Option Value :=
  let first := scanJsonValues text
  if first.any isCompleteVerdict then first
  else
    let unwrapped := escapeRawNewlines false false text
    let second := scanJsonValues unwrapped
    if second.any isCompleteVerdict then second
    else
      let third := scanJsonValues (escapeInvalidBackslashes false 0 unwrapped)
      if third.any isCompleteVerdict then third
      else (first.or second).or third

end PrReviewer.Model
