import PrReviewer.Js.Latest
import PrReviewer.Js.Value
import Mathlib.Data.Int.ConditionallyCompleteOrder
import Mathlib.Order.ConditionallyCompleteLattice.Basic

/-!
# Outcome events and the aggregate of a ledger (`outcomes/schema.ts`, `outcomes/report.ts`)

The kinds of event of the finding-outcome contract, and where each may come from. A field that is absent
or `null` is `none`. `Date.parse` is a parameter: the milliseconds of an instant, or `none` for `NaN`.

What an identity counts as is what its latest status says (`statuses`), and its label is the latest
adjudication (`adjudications`); the aggregate counts both.
-/

namespace PrReviewer.Outcomes

/-! ## Events -/

open Js

inductive OutcomeEventKind where
  | reported
  | repeated
  | resolved
  | dismissed
  | still_open
  | unknown
  | feedback
  | adjudication
  deriving DecidableEq, Repr

inductive AdjudicationLabel where
  | confirmed_valid_defect
  | confirmed_false_positive
  | valid_but_unhelpful
  | uncertain
  deriving DecidableEq, Repr

inductive OutcomeProvenance where
  | currentReview
  | forgeThread
  | forgeReaction
  | priorLedger
  | operator
  deriving DecidableEq, Repr

inductive FeedbackSignal where
  | helpful
  | not_helpful
  deriving DecidableEq, Repr

structure OutcomeEvent where
  finding_id : String
  kind : OutcomeEventKind
  /-- `at`: an instant, or nothing when it cannot be proven. -/
  at' : Option String
  head_sha : Option String
  route : Option String
  model : Option String
  provenance : OutcomeProvenance
  reason : Option String := none
  label : Option AdjudicationLabel := none
  actor : Option String := none
  signal : Option FeedbackSignal := none
  count : Option Nat := none
  trusted : Option Bool := none
  deriving DecidableEq, Repr

/-- Past it, the oldest events of a ledger are dropped. -/
def MAX_LEDGER_EVENTS : Nat := 1000

/-- `Date.parse`, with an instant that is absent or not one before all others. -/
def outcomeEventInstant (dateParse : String → Option Int) (at' : Option String) : WithBot Int :=
  match at' with
  | none => ⊥
  | some text => if trim text = "" then ⊥ else dateParse text

/-- The events by their instants, those of one instant in their order. -/
def chronological (dateParse : String → Option Int) (events : List OutcomeEvent) :
    List OutcomeEvent :=
  events.insertionSort fun a b =>
    outcomeEventInstant dateParse a.at' ≤ outcomeEventInstant dateParse b.at'

/-! ## The aggregate -/

inductive OutcomeStatus where
  | open
  | resolved
  | dismissed
  | unknown
  deriving DecidableEq, Repr

/-- `STATUS_OF_KIND`. -/
def statusOfKind : OutcomeEventKind → Option OutcomeStatus
  | .reported | .repeated | .still_open => some .open
  | .resolved => some .resolved
  | .dismissed => some .dismissed
  | .unknown => some .unknown
  | .feedback | .adjudication => none

/-- The label that an adjudication gives. -/
def labelOf (event : OutcomeEvent) : Option AdjudicationLabel :=
  if event.kind = .adjudication then event.label else none

structure Adjudicated where
  confirmed_valid_defect : Nat
  confirmed_false_positive : Nat
  valid_but_unhelpful : Nat
  uncertain : Nat
  precision : Option Number

structure OutcomeAggregate where
  unique_findings : Nat
  open' : Nat
  resolved : Nat
  dismissed : Nat
  unknown : Nat
  helpful : Nat
  not_helpful : Nat
  adjudicated : Adjudicated

section

variable (dateParse : String → Option Int)

/-- What each identity counts as. -/
def statuses (events : List OutcomeEvent) : Map String OutcomeStatus :=
  latest (·.finding_id) (fun e => statusOfKind e.kind) (chronological dateParse events)

/-- The label that each identity is given. -/
def adjudications (events : List OutcomeEvent) : Map String AdjudicationLabel :=
  latest (·.finding_id) labelOf (chronological dateParse events)

/-- The sum of the counts of a signal. -/
def reactionSum (events : List OutcomeEvent) (signal : FeedbackSignal) : Nat :=
  ((events.filter fun e => e.kind = .feedback && e.signal = some signal).map
    (·.count.getD 0)).sum

def countLabels (labels : Map String AdjudicationLabel) : Adjudicated :=
  let valid := labels.count (· = .confirmed_valid_defect)
  let falsePositive := labels.count (· = .confirmed_false_positive)
  { confirmed_valid_defect := valid
    confirmed_false_positive := falsePositive
    valid_but_unhelpful := labels.count (· = .valid_but_unhelpful)
    uncertain := labels.count (· = .uncertain)
    precision := if valid + falsePositive = 0 then none
      else some (Number.ofNat valid / Number.ofNat (valid + falsePositive)) }

def aggregateOutcomeEvents (events : List OutcomeEvent) : OutcomeAggregate :=
  let status := statuses dateParse events
  { unique_findings := (events.map (·.finding_id)).dedup.length
    open' := status.count (· = .open)
    resolved := status.count (· = .resolved)
    dismissed := status.count (· = .dismissed)
    unknown := status.count (· = .unknown)
    helpful := reactionSum events .helpful
    not_helpful := reactionSum events .not_helpful
    adjudicated := countLabels (adjudications dateParse events) }

end

end PrReviewer.Outcomes
