import PrReviewer.Js.JsonStringify
import PrReviewer.Js.Latest
import PrReviewer.Tools.Evidence

/-!
# The requirement-trace plan

`src/requirements/trace-plan.ts`: the plan of the requirements in scope (`buildTracePlan`), and its artifact read back
(`readTracePlan`).

The classifiers of a requirement's text that the validator owns are a parameter (`TextReading`).
-/

namespace PrReviewer.Requirements

open Js
open Tools (TraceSeamHint TraceProofShape)

def TRACE_PLAN_VERSION : Nat := 3

def MAX_TRACE_PLAN_ROWS : Nat := 40

def MAX_TRACE_PLAN_ROW_TEXT_CHARS : Nat := 400

def TRACE_PLAN_SECTION_MAX_BYTES : Nat := 6000

def MAX_SEAM_PATTERN_CHARS : Nat := 200

def MAX_SEAM_PATTERNS : Nat := 8

def MAX_GROUP_NAME_CHARS : Nat := 60

def MAX_RENDERED_ID_CHARS : Nat := 64

def MAX_GROUPS_PER_RULE : Nat := 4

def MIN_DISTRIBUTED_GROUPS : Nat := 2

structure TracePlanRow where
  id : String
  text : String
  kind : String
  seams : List TraceSeamHint
  codeVerifiable : Bool
  proofShape : TraceProofShape
  requiredAttempts : Nat
  deriving DecidableEq

structure TracePlan where
  version : Nat
  rows : List TracePlanRow
  deriving DecidableEq

/-! ## Demands -/

/-- What the classifiers say of a text: `structuralStateClaim` is not null, `explicitlyRequiresTest`, and
`nonCodeProofDomain` is not null. -/
structure TextReading where
  structural : String → Bool
  requiresTest : String → Bool
  nonCode : String → Bool

def proofDemandFor (reading : TextReading) (text : String) (seams : List TraceSeamHint) : TraceProofShape × Nat :=
  if MIN_DISTRIBUTED_GROUPS ≤ seams.length then (.distributed, 2 * min seams.length MAX_GROUPS_PER_RULE)
  else if reading.structural text then (.structural, if reading.requiresTest text then 2 else 1)
  else if reading.nonCode text then (.nonCode, 0)
  else (.runtime, 2)

/-! ## Seams -/

/-- `/[\x00-\x1f\x7f]/`. -/
def isControl (c : Char) : Bool := c.toNat ≤ 0x1F || c.toNat = 0x7F

/-- A pattern as it is kept, when it survives. -/
def cleanPattern : Value → Option String
  | .string pattern =>
    let kept := trim (String.ofList (pattern.toList.filter fun c => !isControl c))
    if kept = "" || decide (MAX_SEAM_PATTERN_CHARS < strLength kept) then none else some kept
  | _ => none

/-- The patterns that survive, each once, up to the cap. -/
def cleanSeamPatterns (patterns : List Value) : List String :=
  (patterns.filterMap cleanPattern).eraseDups.take MAX_SEAM_PATTERNS

def cleanSeamName (name : String) : String :=
  sliceTo MAX_GROUP_NAME_CHARS (trim (String.ofList (name.toList.filter fun c => !isControl c && c.toNat ≠ 0x60)))

def cleanSeamHint : Value → Option TraceSeamHint
  | .object fields =>
    match (Value.object fields).get "name", (Value.object fields).get "owners", (Value.object fields).get "tests" with
    | .string name, .array owners, .array tests =>
      if cleanSeamName name = "" then none
      else some ⟨cleanSeamName name, cleanSeamPatterns owners, cleanSeamPatterns tests⟩
    | _, _, _ => none
  | _ => none

/-- The seams of a list of groups that survive, the first of each name. -/
def keptSeams (groups : Value) : List TraceSeamHint :=
  match groups with
  | .array items => distinctBy (·.name) (items.filterMap cleanSeamHint)
  | _ => []

/-- The seams of the first hint for a requirement. -/
def planSeamHints (distributedHints : List Value) (requirementId : String) : List TraceSeamHint :=
  match distributedHints.find? fun hint => (hint.get "requirementId").string? = some requirementId with
  | some hint => keptSeams (hint.get "groups")
  | none => []

/-! ## The builder -/

structure LedgerEntry where
  id : String
  text : String
  kind : String

/-- An item of the ledger that the trace scopes. -/
def planLedgerEntry : Value → Option LedgerEntry
  | .object fields =>
    match (Value.object fields).get "id", (Value.object fields).get "text", (Value.object fields).get "kind" with
    | .string id, .string text, .string kind => if kind = "acceptance" ∨ kind = "normative" then some ⟨id, text, kind⟩ else none
    | _, _, _ => none
  | _ => none

def planLedgerEntries (ledger : Value) : List LedgerEntry :=
  match ledger.get "requirements" with
  | .array items => items.filterMap planLedgerEntry
  | _ => []

/-- What is left of an id in the vocabulary of ids. -/
def cleanPlanId (id : String) : String := sliceTo MAX_RENDERED_ID_CHARS (String.ofList (id.toList.filter isTokenChar))

structure PlanInput where
  ledger : Value
  scopeIds : List String
  distributedHints : List Value

/-- The ledger entries that become rows: those of the ids in scope, the first one for each id and each cleaned id. -/
def plannedEntries (input : PlanInput) : List LedgerEntry :=
  let entries := (input.scopeIds.filter (· ≠ "")).eraseDups.filterMap fun id =>
    (planLedgerEntries input.ledger).find? (·.id = id)
  (distinctBy (fun entry => cleanPlanId entry.id) (entries.filter fun entry => cleanPlanId entry.id ≠ "")).take
    MAX_TRACE_PLAN_ROWS

def boundedText (text : String) : String :=
  if MAX_TRACE_PLAN_ROW_TEXT_CHARS < strLength text then sliceTo MAX_TRACE_PLAN_ROW_TEXT_CHARS text else text

def planRow (reading : TextReading) (entry : LedgerEntry) (seams : List TraceSeamHint) : TracePlanRow :=
  { id := cleanPlanId entry.id
    text := boundedText entry.text
    kind := entry.kind
    seams
    codeVerifiable := decide (0 < (proofDemandFor reading entry.text seams).2)
    proofShape := (proofDemandFor reading entry.text seams).1
    requiredAttempts := (proofDemandFor reading entry.text seams).2 }

def buildTracePlan (reading : TextReading) (input : PlanInput) : TracePlan :=
  { version := TRACE_PLAN_VERSION
    rows := (plannedEntries input).map fun entry => planRow reading entry (planSeamHints input.distributedHints entry.id) }

/-! ## The artifact -/

def shapeText : TraceProofShape → String
  | .runtime => "runtime"
  | .structural => "structural"
  | .distributed => "distributed"
  | .nonCode => "non-code"

def seamValue (seam : TraceSeamHint) : Value :=
  .object [("name", .string seam.name), ("owners", .array (seam.owners.map .string)), ("tests", .array (seam.tests.map .string))]

def rowValue (row : TracePlanRow) : Value :=
  .object [("id", .string row.id), ("text", .string row.text), ("kind", .string row.kind),
    ("seams", .array (row.seams.map seamValue)), ("code_verifiable", .bool row.codeVerifiable),
    ("proof_shape", .string (shapeText row.proofShape)), ("required_attempts", .count row.requiredAttempts)]

def planValue (plan : TracePlan) : Value :=
  .object [("version", .count plan.version), ("rows", .array (plan.rows.map rowValue))]

/-! ## The reader -/

def parseShape (s : String) : Option TraceProofShape :=
  if s = "runtime" then some .runtime
  else if s = "structural" then some .structural
  else if s = "distributed" then some .distributed
  else if s = "non-code" then some .nonCode
  else none

/-- An integer from 0 to `max`. -/
def boundedInteger? (max : Nat) : Value → Option Nat
  | .count n => if n ≤ max then some n else none
  | .number x => if x.isInteger ∧ (0 : Number) ≤ x ∧ x ≤ Number.ofNat max then some x.toNat else none
  | _ => none

/-- The seams of a row: every one of them survives, and each name counts once. -/
def readSeams (seams : List Value) : Option (List TraceSeamHint) := (seams.mapM cleanSeamHint).map (distinctBy (·.name))

/-- The fields of a row agree with each other. -/
def coheres (reading : TextReading) (text : String) (seams : List TraceSeamHint) (codeVerifiable : Bool)
    (shape : TraceProofShape) (attempts : Nat) : Bool :=
  codeVerifiable == decide (0 < attempts) && (codeVerifiable != (shape == .nonCode)) &&
    proofDemandFor reading text seams == (shape, attempts) &&
    (match shape with
      | .runtime => decide (attempts = 2)
      | .structural => decide (attempts = 1 ∨ attempts = 2)
      | _ => true) &&
    if shape = .distributed then
      decide (MIN_DISTRIBUTED_GROUPS ≤ seams.length) && decide (attempts = 2 * min seams.length MAX_GROUPS_PER_RULE)
    else decide (seams.length < MIN_DISTRIBUTED_GROUPS)

def parseTracePlanRow (reading : TextReading) (raw : Value) : Option TracePlanRow := do
  let .string id := raw.get "id" | none
  guard (cleanPlanId id ≠ "")
  let .string text := raw.get "text" | none
  let .string kind := raw.get "kind" | none
  let .array rawSeams := raw.get "seams" | none
  let seams ← readSeams rawSeams
  let .bool codeVerifiable := raw.get "code_verifiable" | none
  let .string shapeName := raw.get "proof_shape" | none
  let shape ← parseShape shapeName
  let attempts ← boundedInteger? (2 * MAX_GROUPS_PER_RULE) (raw.get "required_attempts")
  guard (coheres reading text seams codeVerifiable shape attempts)
  some ⟨cleanPlanId id, text, kind, seams, codeVerifiable, shape, attempts⟩

/-- The rows of a payload, when it is of the version and every one of them conforms. -/
def readRows (reading : TextReading) (payload : Value) : Option (List TracePlanRow) :=
  match boundedInteger? TRACE_PLAN_VERSION (payload.get "version"), payload.get "rows" with
  | some version, .array rawRows =>
    if version = TRACE_PLAN_VERSION then (rawRows.take MAX_TRACE_PLAN_ROWS).mapM (parseTracePlanRow reading) else none
  | _, _ => none

def readTracePlan (reading : TextReading) (text : Option String) : TracePlan :=
  { version := TRACE_PLAN_VERSION
    rows := ((text.bind Json.parse).bind (readRows reading)).getD [] }

end PrReviewer.Requirements
