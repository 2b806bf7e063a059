import PrReviewer.Enforcement.Obligations

/-!
# Derived obligations

`src/enforcement/derived-obligations.ts`, and `foldObligationDispositions` of
`src/enforcement/review-obligations.ts` for the rows of every source. The artifact of the derivation is untrusted:
any value. `toLowerCase` is a parameter; matching goes by characters.
-/

open Js

namespace PrReviewer.Enforcement

/-! ## Matching -/

/-- The places where `token` stands in a text, each with the text before it, backwards, and the text after it. -/
def occurrences (token : List Char) : List Char → List Char → List (List Char × List Char)
  | before, [] => if token.isEmpty then [(before, [])] else []
  | before, c :: cs =>
    (if token.isPrefixOf (c :: cs) then [(before, (c :: cs).drop token.length)] else []) ++
      occurrences token (c :: before) cs

/-- A place with no word character on either side. -/
def isBounded (place : List Char × List Char) : Bool :=
  !(place.1.head?.any RegExp.isWord) && !(place.2.head?.any RegExp.isWord)

/-- `text` names `token` on identifier boundaries. -/
def mentionsToken (text token : String) : Bool :=
  token != "" && (occurrences token.toList [] text.toList).any isBounded

/-- `DERIVED_FAILURE_MARKERS`. -/
def derivedFailureMarkers : List String :=
  ["fails", "failed", "failing", "violates", "violated", "violation", "breaches", "breached",
    "counterexample", "counterexamples", "not satisfied", "does not satisfy", "doesn't satisfy",
    "do not satisfy", "does not hold", "do not hold", "doesn't hold", "cannot hold", "can not hold",
    "can't hold", "is not met", "are not met", "not met", "missing", "does not place", "do not place",
    "doesn't place", "does not include", "doesn't include", "never place", "never places",
    "never hash", "never hashes", "never pass", "never passes", "broken"]

/-- `DERIVED_NEGATIONS`. -/
def derivedNegations : List String :=
  ["no", "not", "never", "without", "nor", "neither", "nothing", "none", "cannot", "can't", "hardly",
    "barely"]

def isAsciiLetter (c : Char) : Bool := ('a' ≤ c && c ≤ 'z') || ('A' ≤ c && c ≤ 'Z')

/-- The word just before a place, in lower case: `/([A-Za-z][A-Za-z']*)\s*$/` on the text before it. -/
def precedingWord (toLowerCase : String → String) (before : List Char) : String :=
  let word := ((before.dropWhile isSpace).takeWhile fun c => isAsciiLetter c || c == '\'').reverse
  toLowerCase (String.ofList (word.dropWhile (· == '\'')))

def isNegationWord (word : String) : Bool :=
  word != "" && (derivedNegations.contains word || ['n', '\'', 't'].isSuffixOf word.toList)

/-- A rationale that says that the obligation fails: a marker on word boundaries, not negated. -/
def rationaleAssertsFailure (toLowerCase : String → String) (text : String) : Bool :=
  text != "" && derivedFailureMarkers.any fun marker =>
    (occurrences marker.toList [] (toLowerCase text).toList).any fun place =>
      isBounded place && !isNegationWord (precedingWord toLowerCase place.1)

/-! ## Locations -/

/-- `EXTENSIONLESS_LOCATIONS`. -/
def extensionlessLocations : List String :=
  ["makefile", "dockerfile", "license", "readme", "changelog", "codeowners", "gemfile", "rakefile",
    "procfile", "justfile"]

/-- `CASE_SENSITIVE_EXTENSIONLESS_LOCATIONS`. -/
def caseSensitiveExtensionlessLocations : List String := ["BUILD", "WORKSPACE"]

def isAsciiAlphanumeric (c : Char) : Bool := isDigit c || isAsciiLetter c

def looksLikeLocation (toLowerCase : String → String) (part : String) : Bool :=
  if part = "" then false
  else if part.toList.contains '/' then true
  else
    match cutAtLast '.' part.toList with
    | (none, _) =>
      caseSensitiveExtensionlessLocations.contains part ||
        extensionlessLocations.contains (toLowerCase part)
    | (some _, extension) => isRun isAsciiAlphanumeric 1 8 (String.ofList extension)

/-- The part of an anchor before its last colon. -/
def anchorPathPart (anchor : String) : String :=
  match cutAtLast ':' anchor.toList with
  | (none, _) => anchor
  | (some path, _) => String.ofList path

def anchorIsUsable (toLowerCase : String → String) (anchor : String) : Bool :=
  looksLikeLocation toLowerCase (anchorPathPart anchor)

/-- `[A-Za-z0-9_./\\:-]`. -/
def isPathToken (c : Char) : Bool := RegExp.isWord c || ['.', '/', '\\', ':', '-'].contains c

/-- The maximal runs of characters of a class. -/
def runsOf (p : Char → Bool) (cs : List Char) : List (List Char) :=
  (cs.splitBy fun a b => p a == p b).filter fun run => run.any p

def namesPathLikeToken (toLowerCase : String → String) (text : String) : Bool :=
  (runsOf isPathToken text.toList).any fun token =>
    looksLikeLocation toLowerCase (String.ofList (token.takeWhile (· != ':')))

/-! ## The artifact -/

/-- `derivedObligationId`: the id of the obligation at an index. -/
def derivedObligationId (index : Nat) : String := "derived-" ++ toString (index + 1)

def maxDerivedObligations : Nat := 4

def maxPathsPerObligation : Nat := 8

def maxObligationChars : Nat := 400

def maxPathChars : Nat := 200

inductive DerivedCoverage where
  | disabled
  | complete
  | incomplete
  deriving DecidableEq, Repr

structure DerivedObligationRow where
  id : String
  text : String
  /-- The locations that the derivation declared. -/
  anchors : List String
  deriving DecidableEq

structure DerivedObligationResolution where
  enabled : Bool
  coverage : DerivedCoverage
  reason : Option String
  rows : List DerivedObligationRow
  deriving DecidableEq

/-- Each run of white space as one blank. -/
def singleSpaces : List Char → List Char
  | [] => []
  | c :: cs =>
    if isSpace c then
      if (cs.head?.map isSpace).getD false then singleSpaces cs else ' ' :: singleSpaces cs
    else c :: singleSpaces cs

/-- Untrusted text as one line of at most `limit` code units. -/
def boundedLine (value : Value) (limit : Nat) : String :=
  match value with
  | .string s =>
    let plain := s.toList.map fun c => if c.toNat ≤ 0x1F || c.toNat == 0x7F then ' ' else c
    let flattened := trim (String.ofList (singleSpaces plain))
    if limit < strLength flattened then trim (sliceTo limit flattened) else flattened
  | _ => ""

/-- The status as a closed token. -/
def statusToken (toLowerCase : String → String) (value : Value) : String :=
  match value with
  | .string s =>
    let token := toLowerCase (trim s)
    if isRun (fun c => ('a' ≤ c && c ≤ 'z') || isDigit c || c == '_' || c == '-') 1 40 token then token
    else "unknown"
  | _ => "unknown"

/-- One location, if it is new and usable and there is room for it. -/
def addAnchor (toLowerCase : String → String) (anchors : List String) (raw : Value) : List String :=
  let anchor := boundedLine raw maxPathChars
  if maxPathsPerObligation ≤ anchors.length then anchors
  else if anchor = "" ∨ anchor ∈ anchors then anchors
  else if anchorIsUsable toLowerCase anchor then anchors ++ [anchor]
  else anchors

def boundedAnchors (toLowerCase : String → String) (value : Value) : List String :=
  match value with
  | .array elements => elements.foldl (addAnchor toLowerCase) []
  | _ => []

/-- `isRecord`. -/
def isRecord : Value → Bool
  | .object _ => true
  | _ => false

/-- An entry that gives a row: an object with an obligation. -/
def isUsable (entry : Value) : Bool :=
  isRecord entry && boundedLine (entry.get "obligation") maxObligationChars != ""

/-- The row of an entry. -/
def rowOf (toLowerCase : String → String) (index : Nat) (entry : Value) : DerivedObligationRow where
  id := derivedObligationId index
  text := boundedLine (entry.get "obligation") maxObligationChars
  anchors := boundedAnchors toLowerCase (entry.get "paths")

/-- The rows of the entries from an index on, `room` at most; an entry that is not usable is skipped. -/
def rowsFrom (toLowerCase : String → String) : Nat → Nat → List Value → List DerivedObligationRow
  | _, _, [] => []
  | 0, _, _ :: _ => []
  | room + 1, index, entry :: entries =>
    if isUsable entry then
      rowOf toLowerCase index entry :: rowsFrom toLowerCase room (index + 1) entries
    else rowsFrom toLowerCase (room + 1) (index + 1) entries

def obligationRows (toLowerCase : String → String) (value : Value) : List DerivedObligationRow :=
  match value with
  | .array entries => rowsFrom toLowerCase maxDerivedObligations 0 entries
  | _ => []

/-- `value === true`. -/
def isTrue : Value → Bool
  | .bool b => b
  | _ => false

/-- An array without elements. -/
def isEmptyArray : Value → Bool
  | .array [] => true
  | _ => false

/-- Coverage that is not complete, with the reason. -/
def incomplete (reason : String) (rows : List DerivedObligationRow) : DerivedObligationResolution :=
  ⟨true, .incomplete, some reason, rows⟩

def resolveDerivedObligations (toLowerCase : String → String) (record : Value) (enabled : Bool) :
    DerivedObligationResolution :=
  if !enabled then ⟨false, .disabled, none, []⟩
  else if !isRecord record then incomplete "artifact-missing" []
  else
    let rows := obligationRows toLowerCase (record.get "obligations")
    let status := statusToken toLowerCase (record.get "status")
    if status ≠ "ok" ∧ status ≠ "empty" then incomplete ("derivation-" ++ status) rows
    else if !isTrue (record.get "input_complete") then incomplete "input-incomplete" rows
    else if isTrue (record.get "truncated") then incomplete "obligation-set-truncated" rows
    else if !isEmptyArray (record.get "errors") then incomplete "derivation-malformed" rows
    else ⟨true, .complete, none, rows⟩

/-! ## Evidence -/

/-- `GENERIC_BASENAMES`. -/
def genericBasenames : List String :=
  ["index", "main", "mod", "lib", "util", "utils", "common", "shared", "core", "config", "settings",
    "app", "server", "client", "api", "types", "constants", "init", "setup", "helper", "helpers",
    "test", "tests", "spec"]

/-- The name of a file without its extension, in lower case. -/
def fileStem (toLowerCase : String → String) (name : String) : String :=
  match cutAtLast '.' (toLowerCase name).toList with
  | (some (c :: cs), _) => String.ofList (c :: cs)
  | _ => toLowerCase name

/-- `path.split(/[\\/]/).pop()`. -/
def basename (path : String) : String :=
  String.ofList (path.toList.reverse.takeWhile fun c => c != '/' && c != '\\').reverse

/-- The text names the path, or its base name where that is not generic. -/
def namesPath (toLowerCase : String → String) (candidate path : String) : Bool :=
  mentionsToken candidate path ||
    (basename path != "" && !genericBasenames.contains (fileStem toLowerCase (basename path)) &&
      mentionsToken candidate (basename path))

/-- `text` names the location that the derivation flagged. -/
def anchorCoveredBy (toLowerCase : String → String) (text anchor : String) : Bool :=
  let candidate := trim text
  let trimmed := trim anchor
  if candidate = "" ∨ trimmed = "" then false
  else
    match cutAtLast ':' trimmed.toList with
    | (none, _) => namesPath toLowerCase candidate trimmed
    | (some path, symbol) =>
      path != [] && symbol != [] && mentionsToken candidate (String.ofList symbol) &&
        namesPath toLowerCase candidate (String.ofList path)

/-- `DERIVED_COVERAGE_ROW_ID`. -/
def derivedCoverageRowId : String := "derived-coverage"

def derivedCoverageObligationText (reason : String) : String :=
  let bounded := boundedLine (.string reason) 80
  let safeReason := if bounded = "" then "unknown" else bounded
  "Derived-obligation coverage is unavailable (reason: " ++ safeReason ++ "): the architectural " ++
    "obligations this change implies could not be fully derived, so their verification " ++
    "coverage is unknown. This row marks missing coverage, not a defect."

/-! ## Rows of the contract -/

/-- An obligation with the locations of a derived one. -/
structure ObligationRow extends ReviewObligation where
  anchors : Option (List String) := none

/-- The row of the contract that a derived row becomes. -/
def DerivedObligationRow.obligation (row : DerivedObligationRow) : ObligationRow where
  id := row.id
  source := .derived
  text := row.text
  status := .unresolved
  anchors := some row.anchors

/-- The row that marks missing coverage, as it joins the contract. -/
def derivedCoverageRow (resolution : DerivedObligationResolution) : Option ObligationRow :=
  if resolution.coverage ≠ .incomplete then none
  else some {
    id := derivedCoverageRowId
    source := .derived
    text := derivedCoverageObligationText (resolution.reason.getD "unknown")
    status := .unresolved
    cause := some .derivationIncomplete }

structure Disposition where
  check : String
  status : String
  rationale : Option String

/-- `normalized`. -/
def normalized (toLowerCase : String → String) (value : String) : String :=
  toLowerCase (String.ofList (singleSpaces (trim value).toList))

/-- The rationale of a disposition, trimmed; `""` where there is none. -/
def Disposition.text (d : Disposition) : String := (d.rationale.map trim).getD ""

/-- The first of the longest: what a stable sort by descending length puts in front. -/
def longest : List String → String
  | [] => ""
  | r :: rs => rs.foldl (fun best r => if strLength best < strLength r then r else best) r

section Fold

variable (toLowerCase : String → String) (obligation : ObligationRow) (dispositions : List Disposition)

def idMatches : List Disposition :=
  dispositions.filter fun d => normalized toLowerCase d.check == normalized toLowerCase obligation.id

def textMatches : List Disposition :=
  dispositions.filter fun d => normalized toLowerCase d.check == normalized toLowerCase obligation.text

/-- The dispositions that answer a row: a `must_check` row is answered by its text only. -/
def pool : List Disposition :=
  match obligation.source with
  | .mustCheck => textMatches toLowerCase obligation dispositions
  | _ => dispositions.filter fun d =>
      normalized toLowerCase d.check == normalized toLowerCase obligation.text ||
        normalized toLowerCase d.check == normalized toLowerCase obligation.id

/-- A rationale that names a location of the row, or any path where it has none. -/
def isGrounded (rationale : String) : Bool :=
  match obligation.anchors.getD [] with
  | [] => namesPathLikeToken toLowerCase rationale
  | anchor :: anchors => (anchor :: anchors).any (anchorCoveredBy toLowerCase rationale)

/-- Whether `satisfied`, or `not_applicable`, discharges a row that is not derived. -/
def discharges (status rationale : String) : Bool :=
  if status = "satisfied" then obligation.source == .mustCheck || rationale != ""
  else status == "not_applicable" && rationale != ""

/-- The status of a row after its dispositions. -/
def foldedStatus : ObligationStatus :=
  let answers := pool toLowerCase obligation dispositions
  match answers with
  | [] => .unresolved
  | first :: _ =>
    if 1 < (answers.filter fun d =>
          normalized toLowerCase d.check == normalized toLowerCase obligation.id).length ∨
        1 < (answers.filter fun d =>
          normalized toLowerCase d.check == normalized toLowerCase obligation.text).length then
      .unresolved
    else if answers.any (·.status != first.status) then .unresolved
    else
      let rationale := longest (answers.map Disposition.text)
      if obligation.source = .derived ∧ obligation.cause = some .derivationIncomplete then .unresolved
      else if first.status = "unmet" then if rationale ≠ "" then .unmet else .unresolved
      else if obligation.source = .derived then
        if first.status = "satisfied" ∧ rationale ≠ "" ∧
            rationaleAssertsFailure toLowerCase rationale = false ∧
            isGrounded toLowerCase obligation rationale = true then .satisfied
        else .unresolved
      else if discharges obligation first.status rationale then .satisfied
      else .unresolved

/-- A row after its dispositions; it keeps its cause unless it is satisfied. -/
def foldOne : ObligationRow :=
  match foldedStatus toLowerCase obligation dispositions with
  | .satisfied => { obligation with status := .satisfied, cause := none }
  | status => { obligation with status }

end Fold

def foldObligationDispositions (toLowerCase : String → String) (obligations : List ObligationRow)
    (dispositions : Option (List Disposition)) : List ObligationRow :=
  obligations.map fun obligation => foldOne toLowerCase obligation (dispositions.getD [])

end PrReviewer.Enforcement
