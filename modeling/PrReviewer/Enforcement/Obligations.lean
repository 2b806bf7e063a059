import PrReviewer.Enforcement.Artifact

/-!
# Review obligations

The gate of the review-owned obligations. Only a row that was checked and does not hold (`unmet`) and
that is not derived forces `request_changes` (`isForcingObligation`); the other open rows are disclosed in
sections of their own.
-/

namespace PrReviewer.Enforcement

inductive ReviewObligationSource where
  | mustCheck
  | trustedBaseGuidance
  | derived
  deriving DecidableEq, Repr

def ReviewObligationSource.text : ReviewObligationSource → String
  | .mustCheck => "must_check"
  | .trustedBaseGuidance => "trusted_base_guidance"
  | .derived => "derived"

inductive ObligationStatus where
  | satisfied
  | unmet
  | unresolved
  deriving DecidableEq, Repr

def ObligationStatus.text : ObligationStatus → String
  | .satisfied => "satisfied"
  | .unmet => "unmet"
  | .unresolved => "unresolved"

inductive ObligationCause where
  | toolCapability
  | budgetExhausted
  | providerFailure
  | missingSourceEvidence
  | derivationIncomplete
  deriving DecidableEq, Repr

def ObligationCause.text : ObligationCause → String
  | .toolCapability => "tool-capability"
  | .budgetExhausted => "budget-exhausted"
  | .providerFailure => "provider-failure"
  | .missingSourceEvidence => "missing-source-evidence"
  | .derivationIncomplete => "derivation-incomplete"

structure ReviewObligation where
  id : String
  source : ReviewObligationSource
  text : String
  status : ObligationStatus
  cause : Option ObligationCause := none

def isForcingObligation (obligation : ReviewObligation) : Bool :=
  obligation.source != .derived && obligation.status == .unmet

/-! ## Code fences -/

/-- The longest run of backticks, given the longest run and the current run before. -/
def longestRun : List Char → Nat → Nat → Nat
  | [], longest, _ => longest
  | c :: cs, longest, run =>
    if c.toNat = 0x60 then longestRun cs (max longest (run + 1)) (run + 1) else longestRun cs longest 0

def longestBacktickRun (data : String) : Nat := longestRun data.toList 0 0

/-- `n` backticks. -/
def backticks (n : Nat) : String := String.ofList (List.replicate n (Char.ofNat 0x60))

/-- A delimiter that no run of backticks in `data` closes. -/
def fenceDelimiterFor (data : String) : String := backticks (max 3 (longestBacktickRun data + 1))

/-! ## The gate -/

/-- The ids of the open rows. -/
def unresolvedReviewObligations (obligations : List ReviewObligation) : List String :=
  (obligations.filter fun obligation => obligation.status != .satisfied).map (·.id)

def reviewObligationAttribution (ids : List String) : String :=
  "required review evidence unresolved: " ++ ", ".intercalate ids
    ++ " (review-owned required check not discharged; review partial, trusted approval withheld; #1381)"

def derivedObligationAttribution (ids : List String) : String :=
  "derived architectural obligation unresolved: " ++ ", ".intercalate ids
    ++ " (derived obligation not discharged; #1449)"

def causeText (obligation : ReviewObligation) : String :=
  (obligation.cause.map ObligationCause.text).getD "unknown"

/-- A row of a section; `note` follows the status. -/
def obligationRow (note : ReviewObligation → String) (obligation : ReviewObligation) : String :=
  "- " ++ obligation.id ++ " (" ++ obligation.source.text ++ ", " ++ obligation.status.text
    ++ note obligation ++ "): " ++ obligation.text

/-- The rows in a fence, and the attribution below it. -/
def fencedRows (rows attribution : String) : String :=
  let delimiter := fenceDelimiterFor rows
  delimiter ++ "text\n" ++ rows ++ "\n" ++ delimiter ++ "\n\n_" ++ attribution ++ "._"

def unmetSection (unmet : List ReviewObligation) : String :=
  let rows := "\n".intercalate (unmet.map (obligationRow fun _ => ""))
  "\n\n## Unmet Required Review Evidence\n"
    ++ fencedRows rows (reviewObligationAttribution (unmet.map (·.id)))

def ungatheredSection (ungathered : List ReviewObligation) : String :=
  let rows := "\n".intercalate
    (ungathered.map (obligationRow fun obligation => ", cause: " ++ causeText obligation))
  "\n\n## Unresolved Required Review Evidence\n"
    ++ "Required-evidence coverage is incomplete: the review could not gather the required "
    ++ "evidence above, so no defect is claimed here (an unresolved required check is a "
    ++ "coverage marker, not a finding). The review is partial and trusted approval is "
    ++ "withheld until the evidence is gathered.\n"
    ++ fencedRows rows (reviewObligationAttribution (ungathered.map (·.id)))

def derivedSection (derived : List ReviewObligation) : String :=
  let rows := "\n".intercalate (derived.map (obligationRow fun obligation =>
    if obligation.status = .unresolved then ", cause: " ++ causeText obligation else ""))
  let unresolved := derived.filter (·.status == .unresolved)
  let unmet := derived.filter (·.status == .unmet)
  let hasCoverageMarker := derived.any (·.cause == some .derivationIncomplete)
  let prose :=
    (if unresolved.length > 0 then
      ["Derived-obligation coverage is incomplete: one or more derived architectural obligations "
        ++ "were not discharged by this review. No defect is claimed here (an unresolved derived "
        ++ "obligation is a coverage marker, not a finding). Trusted approval is withheld until the "
        ++ "obligation is discharged."] else [])
    ++ (if hasCoverageMarker then
      ["The derived-obligation coverage marker is cleared by a derivation that completes, not by a "
        ++ "disposition: until then the derived coverage stays unknown."] else [])
    ++ (if unmet.length > 0 then
      ["The reviewer performed the check for one or more derived architectural obligations and the "
        ++ "obligation did NOT hold. A counterexample belongs in the ordinary findings, where the "
        ++ "normal findings rules carry it; this row records that the obligation was not discharged. "
        ++ "Trusted approval is withheld."] else [])
  "\n\n## Unresolved Derived Architectural Obligations\n"
    ++ " ".intercalate prose ++ "\n"
    ++ fencedRows rows (derivedObligationAttribution (derived.map (·.id)))

def applyReviewObligationEnforcement (a : ReviewArtifact) (obligations : List ReviewObligation) :
    ReviewArtifact × EnforcementOutcome :=
  let unresolved := obligations.filter fun obligation => obligation.status != .satisfied
  if unresolved.length = 0 then (a, .skipped)
  else
    let derived := unresolved.filter fun obligation => obligation.source == .derived
    let unmet := unresolved.filter isForcingObligation
    let ungathered := unresolved.filter fun obligation =>
      obligation.source != .derived && obligation.status == .unresolved
    let reason := if unmet.length > 0
      then "Required review evidence unmet: " ++ ", ".intercalate (unmet.map (·.id)) else ""
    let sections :=
      (if unmet.length > 0 then [unmetSection unmet] else [])
      ++ (if ungathered.length > 0 then [ungatheredSection ungathered] else [])
      ++ (if derived.length > 0 then [derivedSection derived] else [])
    if unmet.length = 0 then (a.append (String.join sections), .skipped)
    else forceRequestChanges a (String.join sections) reason

end PrReviewer.Enforcement
