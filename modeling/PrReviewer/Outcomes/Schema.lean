import PrReviewer.Evidence.PyJson
import PrReviewer.Outcomes.Report

/-!
# The ledger as text (`outcomes/schema.ts`)

`normalizeOutcomeEvent` proves a candidate to be an event of its kind, `serializeOutcomeLedger` writes a ledger and
`parseOutcomeLedger` reads one. `redactText` and `Date.parse` are parameters.
-/

namespace PrReviewer.Outcomes

open Js

def FINDING_OUTCOMES_SCHEMA : String := "finding-outcomes/v1"

/-- The reaction count that one event may claim. -/
def MAX_FEEDBACK_COUNT : Nat := 1000

/-! ## Words -/

def OutcomeEventKind.text : OutcomeEventKind → String
  | .reported => "reported"
  | .repeated => "repeated"
  | .resolved => "resolved"
  | .dismissed => "dismissed"
  | .still_open => "still_open"
  | .unknown => "unknown"
  | .feedback => "feedback"
  | .adjudication => "adjudication"

def AdjudicationLabel.text : AdjudicationLabel → String
  | .confirmed_valid_defect => "confirmed_valid_defect"
  | .confirmed_false_positive => "confirmed_false_positive"
  | .valid_but_unhelpful => "valid_but_unhelpful"
  | .uncertain => "uncertain"

def OutcomeProvenance.text : OutcomeProvenance → String
  | .currentReview => "current-review"
  | .forgeThread => "forge-thread"
  | .forgeReaction => "forge-reaction"
  | .priorLedger => "prior-ledger"
  | .operator => "operator"

def FeedbackSignal.text : FeedbackSignal → String
  | .helpful => "helpful"
  | .not_helpful => "not_helpful"

def EVENT_KINDS : List OutcomeEventKind :=
  [.reported, .repeated, .resolved, .dismissed, .still_open, .unknown, .feedback, .adjudication]

def ADJUDICATION_LABELS : List AdjudicationLabel :=
  [.confirmed_valid_defect, .confirmed_false_positive, .valid_but_unhelpful, .uncertain]

def PROVENANCES : List OutcomeProvenance := [.currentReview, .forgeThread, .forgeReaction, .priorLedger, .operator]

def FEEDBACK_SIGNALS : List FeedbackSignal := [.helpful, .not_helpful]

/-- The member of a set that the value names. -/
def named {α : Type} (text : α → String) (members : List α) (value : Value) : Option α :=
  value.string?.bind fun s => members.find? fun a => text a = s

/-- `KIND_PROVENANCE`: where an event of the kind can come from. -/
def KIND_PROVENANCE : OutcomeEventKind → OutcomeProvenance
  | .reported | .repeated => .currentReview
  | .resolved | .dismissed | .still_open => .forgeThread
  | .unknown => .priorLedger
  | .feedback => .forgeReaction
  | .adjudication => .operator

/-! ## Fields -/

/-- `/^[0-9a-f]{64}$/`. -/
def isFindingId (s : String) : Bool := isRun isLowerHex 64 64 s

/-- `/^[0-9a-f]{1,64}$/`. -/
def isProvenHeadSha (s : String) : Bool := isRun isLowerHex 1 64 s

/-- `/^\d{4}-\d{2}-\d{2}T/`. -/
def isIsoTimestamp (s : String) : Bool :=
  match s.toList with
  | y₁ :: y₂ :: y₃ :: y₄ :: '-' :: m₁ :: m₂ :: '-' :: d₁ :: d₂ :: 'T' :: _ => [y₁, y₂, y₃, y₄, m₁, m₂, d₁, d₂].all isDigit
  | _ => false

/-- `Array.from(s).slice(0, max).join("")`. -/
def firstCodePoints (max : Nat) (s : String) : String := String.ofList (s.toList.take max)

section

variable (redactText : String → String) (dateParse : String → Option Int)

def boundedText (value : Value) (max : Nat) : Option String :=
  value.string?.bind fun s =>
    if trim s = "" then none else some (firstCodePoints max (redactText (trim s)))

def isoTimestamp (value : Value) : Option String :=
  value.string?.bind fun s =>
    if trim s = "" || hasControlChar (trim s) || !isIsoTimestamp (trim s) || (dateParse (trim s)).isNone then none
    else some (trim s)

/-- `typeof rec.at === "string" && CONTROL_CHARS_RE.test(rec.at.trim())`. -/
def isControlled (value : Value) : Bool :=
  match value with
  | .string s => hasControlChar (trim s)
  | _ => false

/-- `typeof rec.count === "number" && Number.isSafeInteger(rec.count) && rec.count >= 0`, with the count. -/
def safeCount : Value → Option Nat
  | .count n => if n < 2 ^ 53 then some n else none
  | .number x => if x.isSafeInteger ∧ 0 ≤ x then some x.toNat else none
  | _ => none

def isObject : Value → Bool
  | .object _ => true
  | _ => false

def array? : Value → Option (List Value)
  | .array xs => some xs
  | _ => none

/-- What only events of some kinds carry. -/
def withKindFields (raw : Value) (event : OutcomeEvent) : Option OutcomeEvent :=
  match event.kind with
  | .dismissed => do
    let reason ← boundedText redactText (raw.get "reason") 200
    some { event with reason := some reason }
  | .adjudication => do
    let label ← named AdjudicationLabel.text ADJUDICATION_LABELS (raw.get "label")
    let actor ← boundedText redactText (raw.get "actor") 200
    some { event with label := some label, actor := some actor }
  | .feedback => do
    let signal ← named FeedbackSignal.text FEEDBACK_SIGNALS (raw.get "signal")
    let count := safeCount (raw.get "count")
    if count.any (MAX_FEEDBACK_COUNT < ·) then none
    else if (raw.get "trusted").bool? = some true then none
    else some { event with signal := some signal, count := count, trusted := some false }
  | _ => some event

def normalizeOutcomeEvent (raw : Value) : Option OutcomeEvent := do
  guard (isObject raw)
  let finding_id ← (raw.get "finding_id").string?
  guard (isFindingId finding_id)
  let kind ← named OutcomeEventKind.text EVENT_KINDS (raw.get "kind")
  let provenance ← named OutcomeProvenance.text PROVENANCES (raw.get "provenance")
  guard (KIND_PROVENANCE kind = provenance)
  guard (!isControlled (raw.get "at"))
  withKindFields redactText raw
    { finding_id
      kind
      at' := isoTimestamp dateParse (raw.get "at")
      head_sha := (raw.get "head_sha").string?.filter isProvenHeadSha
      route := boundedText redactText (raw.get "route") 200
      model := boundedText redactText (raw.get "model") 200
      provenance }

/-! ## The ledger -/

structure OutcomeLedger where
  schema : String
  generated_at : String
  head_sha : String
  route : Option String
  model : Option String
  events : List OutcomeEvent
  aggregate : OutcomeAggregate

/-- A text, or `null`. -/
def nullable : Option String → Value
  | none => .null
  | some s => .string s

/-- A field that is left out when it has no value. -/
def optional (key : String) (value : Option Value) : List (String × Value) := (value.map fun v => (key, v)).toList

def OutcomeEvent.toValue (event : OutcomeEvent) : Value :=
  .object <|
    [("finding_id", .string event.finding_id), ("kind", .string event.kind.text), ("at", nullable event.at'),
      ("head_sha", nullable event.head_sha), ("route", nullable event.route), ("model", nullable event.model),
      ("provenance", .string event.provenance.text)] ++
    (optional "reason" (event.reason.map .string) ++ (optional "label" (event.label.map fun label => .string label.text) ++
    (optional "actor" (event.actor.map .string) ++
    (optional "signal" (event.signal.map fun signal => .string signal.text) ++
    (optional "count" (event.count.map .count) ++ optional "trusted" (event.trusted.map .bool))))))

def Adjudicated.toValue (adjudicated : Adjudicated) : Value :=
  .object
    [("confirmed_valid_defect", .count adjudicated.confirmed_valid_defect),
      ("confirmed_false_positive", .count adjudicated.confirmed_false_positive),
      ("valid_but_unhelpful", .count adjudicated.valid_but_unhelpful), ("uncertain", .count adjudicated.uncertain),
      ("precision", (adjudicated.precision.map Value.number).getD .null)]

def OutcomeAggregate.toValue (aggregate : OutcomeAggregate) : Value :=
  .object
    [("unique_findings", .count aggregate.unique_findings), ("open", .count aggregate.open'),
      ("resolved", .count aggregate.resolved), ("dismissed", .count aggregate.dismissed),
      ("unknown", .count aggregate.unknown),
      ("reactions", .object [("helpful", .count aggregate.helpful), ("not_helpful", .count aggregate.not_helpful)]),
      ("adjudicated", aggregate.adjudicated.toValue)]

def OutcomeLedger.toValue (ledger : OutcomeLedger) : Value :=
  .object
    [("schema", .string ledger.schema), ("generated_at", .string ledger.generated_at),
      ("head_sha", .string ledger.head_sha), ("route", nullable ledger.route), ("model", nullable ledger.model),
      ("events", .array (ledger.events.map OutcomeEvent.toValue)), ("aggregate", ledger.aggregate.toValue)]

def serializeOutcomeLedger (ledger : OutcomeLedger) : String := Evidence.pyJsonDumps ledger.toValue

/-- The latest events by their instants, when there are more than a ledger may hold. -/
def latestEvents (events : List OutcomeEvent) : List OutcomeEvent :=
  if MAX_LEDGER_EVENTS < events.length then (chronological dateParse events).drop (events.length - MAX_LEDGER_EVENTS)
  else events

/-- `parseOutcomeLedger` on the value that the text stands for. -/
def readLedger (parsed : Value) : Option OutcomeLedger := do
  guard (isObject parsed)
  guard ((parsed.get "schema").string? = some FINDING_OUTCOMES_SCHEMA)
  let generated_at ← isoTimestamp dateParse (parsed.get "generated_at")
  let head_sha ← (parsed.get "head_sha").string?.filter isProvenHeadSha
  let candidates ← array? (parsed.get "events")
  let events ← candidates.mapM (normalizeOutcomeEvent redactText dateParse)
  some
    { schema := FINDING_OUTCOMES_SCHEMA
      generated_at
      head_sha
      route := boundedText redactText (parsed.get "route") 200
      model := boundedText redactText (parsed.get "model") 200
      events := latestEvents dateParse events
      aggregate := aggregateOutcomeEvents dateParse (latestEvents dateParse events) }

def parseOutcomeLedger (raw : String) : Option OutcomeLedger :=
  if trim raw = "" then none else (Json.parse raw).bind (readLedger redactText dateParse)

end

end PrReviewer.Outcomes
