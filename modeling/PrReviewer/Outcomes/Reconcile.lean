import PrReviewer.Outcomes.Report

/-!
# Reconciliation of a run with what was published before (`outcomes/reconcile.ts`)

`deriveOutcomeEvents` turns the observations of a run into events: first what the threads show, newest
comment first, then what this run reports, then the reactions, then the history that was lost
(`deriveCurrentEvents`); with a prior ledger they are appended to it (`mergeLedger`).

Counts of reactions are natural numbers.
-/

namespace PrReviewer.Outcomes

open Js

structure Reactions where
  helpful : Nat
  notHelpful : Nat
  deriving DecidableEq, Repr

structure PriorFindingObservation where
  findingId : String
  /-- The state of the thread, when it can be proven. -/
  resolved : Option Bool
  reactions : Reactions
  deriving DecidableEq, Repr

structure DeriveOutcomeOptions where
  postedIdentities : List String
  prior : List PriorFindingObservation
  priorHeadSha : Option String
  currentHeadSha : String
  route : Option String
  model : Option String
  at' : String
  priorLedger : Option (List OutcomeEvent)
  deriving DecidableEq, Repr

/-- `OPEN_STATUS_KINDS`. -/
def isOpenKind (kind : OutcomeEventKind) : Bool :=
  kind = .reported || kind = .repeated || kind = .still_open

/-- `STATUS_KINDS`. -/
def isStatusKind (kind : OutcomeEventKind) : Bool := (statusOfKind kind).isSome

def sameHead (a b : Option String) : Bool :=
  match a, b with
  | some a, some b => trim a ≠ "" && trim b ≠ "" && a = b
  | _, _ => false

namespace DeriveOutcomeOptions

variable (options : DeriveOutcomeOptions)

/-- Neither head is blank, and they differ. -/
def headAdvanced : Bool :=
  options.priorHeadSha.any (trim · ≠ "") && trim options.currentHeadSha ≠ ""
    && !sameHead options.priorHeadSha (some options.currentHeadSha)

/-- An event of this run. -/
def event (finding_id : String) (kind : OutcomeEventKind) (provenance : OutcomeProvenance) :
    OutcomeEvent where
  finding_id := finding_id
  kind := kind
  at' := some options.at'
  head_sha := if options.currentHeadSha = "" then none else some options.currentHeadSha
  route := options.route
  model := options.model
  provenance := provenance

/-- What a resolved thread says: a code fix only if the head provably advanced. -/
def closed (finding_id : String) : OutcomeEvent :=
  if options.headAdvanced then options.event finding_id .resolved .forgeThread
  else
    { options.event finding_id .dismissed .forgeThread with
      reason := some (if options.priorHeadSha.any (trim · ≠ "") then "thread_resolved"
        else "thread_resolved_head_unverified") }

def threadEvent (observation : PriorFindingObservation) : Option OutcomeEvent :=
  observation.resolved.map fun resolved =>
    if resolved then options.closed observation.findingId
    else options.event observation.findingId .still_open .forgeThread

def threadEvents : List OutcomeEvent := options.prior.filterMap options.threadEvent

/-- The posted identities, each once. -/
def reportEvents : List OutcomeEvent :=
  (distinctBy id options.postedIdentities).map fun identity =>
    options.event identity
      (if options.prior.any (·.findingId = identity) then .repeated else .reported) .currentReview

end DeriveOutcomeOptions

/-! ## Reactions -/

def addReactions (totals : Map String Reactions) (identity : String) (reactions : Reactions) :
    Map String Reactions :=
  let entry := (totals.get? identity).getD ⟨0, 0⟩
  totals.set identity
    ⟨entry.helpful + reactions.helpful, entry.notHelpful + reactions.notHelpful⟩

/-- The reactions of a run, added up for each identity. -/
def currentReactions (prior : List PriorFindingObservation) : Map String Reactions :=
  prior.foldl
    (fun totals o =>
      if 0 < o.reactions.helpful || 0 < o.reactions.notHelpful then
        addReactions totals o.findingId o.reactions
      else totals)
    .empty

def signalReactions (signal : FeedbackSignal) (count : Nat) : Reactions :=
  match signal with
  | .helpful => ⟨count, 0⟩
  | .not_helpful => ⟨0, count⟩

/-- What a ledger has counted so far. -/
def priorFeedbackTotals (priorLedger : List OutcomeEvent) : Map String Reactions :=
  priorLedger.foldl
    (fun totals e =>
      match e.kind, e.signal with
      | .feedback, some signal =>
        addReactions totals e.finding_id (signalReactions signal (e.count.getD 0))
      | _, _ => totals)
    .empty

namespace DeriveOutcomeOptions

variable (options : DeriveOutcomeOptions)

/-- One signal of one identity: nothing, unless it grew. -/
def feedbackEvent (identity : String) (signal : FeedbackSignal) (current prior : Nat) :
    List OutcomeEvent :=
  if current ≤ prior then []
  else [{ options.event identity .feedback .forgeReaction with
    signal := some signal, count := some (current - prior), trusted := some false }]

def feedbackEvents : List OutcomeEvent :=
  let priorTotals := options.priorLedger.map priorFeedbackTotals
  (currentReactions options.prior).entries.flatMap fun (identity, current) =>
    let prior := (priorTotals.bind (·.get? identity)).getD ⟨0, 0⟩
    options.feedbackEvent identity .helpful current.helpful prior.helpful
      ++ options.feedbackEvent identity .not_helpful current.notHelpful prior.notHelpful

end DeriveOutcomeOptions

/-! ## The ledger -/

/-- `eventKey`: the fields that tell two events apart. -/
structure EventKey where
  finding_id : String
  kind : OutcomeEventKind
  at' : String
  head_sha : String
  signal : Option FeedbackSignal
  reason : String
  label : Option AdjudicationLabel
  provenance : OutcomeProvenance
  count : Option Nat
  deriving DecidableEq, Repr

def eventKey (event : OutcomeEvent) : EventKey where
  finding_id := event.finding_id
  kind := event.kind
  at' := event.at'.getD ""
  head_sha := event.head_sha.getD ""
  signal := event.signal
  reason := event.reason.getD ""
  label := event.label
  provenance := event.provenance
  count := event.count

section

variable (dateParse : String → Option Int)

/-- The latest status kind of each identity in the ledger. -/
def lastStatus (priorLedger : List OutcomeEvent) : Map String OutcomeEventKind :=
  latest (·.finding_id) (fun e => if isStatusKind e.kind then some e.kind else none)
    (chronological dateParse priorLedger)

namespace DeriveOutcomeOptions

variable (options : DeriveOutcomeOptions)

/-- Posted or observed in this run. -/
def observed (identity : String) : Bool :=
  options.postedIdentities.contains identity || options.prior.any (·.findingId = identity)

/-- The identities that the ledger has as live and that this run did not meet. -/
def unknownEvents (priorLedger : List OutcomeEvent) : List OutcomeEvent :=
  ((lastStatus dateParse priorLedger).entries.filter fun (identity, kind) =>
    !options.observed identity && isOpenKind kind).map fun (identity, _) =>
      options.event identity .unknown .priorLedger

end DeriveOutcomeOptions

def deriveCurrentEvents (options : DeriveOutcomeOptions) : List OutcomeEvent :=
  options.threadEvents ++ options.reportEvents ++ options.feedbackEvents ++
    match options.priorLedger with
    | none => []
    | some priorLedger => options.unknownEvents dateParse priorLedger

/-- The prior ledger and the events of this run, without exact duplicates. -/
def mergedEvents (priorLedger events : List OutcomeEvent) : List OutcomeEvent :=
  distinctBy eventKey (priorLedger ++ events)

def mergeLedger (priorLedger events : List OutcomeEvent) : List OutcomeEvent :=
  let merged := mergedEvents priorLedger events
  if merged.length ≤ MAX_LEDGER_EVENTS then merged
  else (chronological dateParse merged).drop (merged.length - MAX_LEDGER_EVENTS)

def deriveOutcomeEvents (options : DeriveOutcomeOptions) : List OutcomeEvent :=
  let base := deriveCurrentEvents dateParse options
  match options.priorLedger with
  | none => base
  | some priorLedger => mergeLedger dateParse priorLedger base

end

end PrReviewer.Outcomes
