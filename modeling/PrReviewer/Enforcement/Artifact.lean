import PrReviewer.Js.RegExp

/-!
# The review artifact

The object the enforcement passes rewrite: the verdict, the review text, the open findings and the
dispositions of the model. A pass takes the artifact and returns the rewritten one.

- A field that only later stages read is left out, also of a finding.
- `findings` and `required_check_dispositions` are `none` when the field holds no array.
-/

open Js

namespace PrReviewer.Enforcement

inductive VerdictValue where
  | approve
  | requestChanges
  deriving DecidableEq, Repr

def VerdictValue.text : VerdictValue → String
  | .approve => "approve"
  | .requestChanges => "request_changes"

inductive VerdictSource where
  | model
  | findings
  | enforcement
  deriving DecidableEq, Repr

inductive Severity where
  | blocker
  | major
  | minor
  | info
  deriving DecidableEq, Repr

def Severity.text : Severity → String
  | .blocker => "blocker"
  | .major => "major"
  | .minor => "minor"
  | .info => "info"

inductive GroundingStatus where
  | refuted
  | unverified
  | unsupported
  deriving DecidableEq, Repr

structure ArtifactFinding where
  severity : Severity
  category : String
  file : Option String := none
  line : Option Number := none
  message : String := ""
  threadId : Option String := none
  cappedFrom : Option String := none
  ciCapped : Option Bool := none
  groundingStatus : Option GroundingStatus := none

structure ReviewArtifact where
  verdict : VerdictValue
  reviewMarkdown : String := ""
  findings : Option (List ArtifactFinding) := some []
  verdictSource : Option VerdictSource := none
  requiredChecks : Option String := none
  requirementTraceIncomplete : Option Bool := none
  requiredCheckDispositions : Option (List Value) := none
  threadDispositions : Option (List Value) := none
  humanReviewDispositions : Option (List Value) := none

/-- The findings, none when the field holds no array. -/
def ReviewArtifact.openFindings (a : ReviewArtifact) : List ArtifactFinding := a.findings.getD []

/-- `artifact.review_markdown += text`. -/
def ReviewArtifact.append (a : ReviewArtifact) (text : String) : ReviewArtifact :=
  { a with reviewMarkdown := a.reviewMarkdown ++ text }

/-! ## Relaxation notes -/

def gatedFindingsRelaxationNote : String :=
  "_Verdict relaxed from structured findings (verdict_policy=findings_severity_gated): "
    ++ "every blocking finding was in a category this repository marks non-blocking "
    ++ "(non_blocking_finding_categories); they remain listed above._"

def verificationOnlyRelaxationNote : String :=
  "_Verdict relaxed from structured findings (#977): every open finding is a "
    ++ "verification request the review tools cannot check, so the author has nothing to "
    ++ "change. The findings remain listed above._"

def ciOnlyRelaxationNote : String :=
  "_Verdict relaxed from CI-only findings (#976): check conclusions are shown for "
    ++ "context and gate the merge independently; they are not review blockers._"

def refutedGroundingRelaxationNote : String :=
  "_Verdict relaxed from structured findings (#1016): every open finding was either a "
    ++ "verification request or a source claim the deterministic blocker-verification "
    ++ "boundary positively refuted against exact-head source; the findings remain listed "
    ++ "above and deterministic gates are unaffected._"

/-- `RELAXATION_NOTES`. -/
def relaxationNotes : List String :=
  [gatedFindingsRelaxationNote, verificationOnlyRelaxationNote, ciOnlyRelaxationNote,
    refutedGroundingRelaxationNote]

/-- `RELAXATION_NOTE_RE`: a line that is one of the notes. -/
def relaxationNoteRe : RegExp :=
  .concat [.lineStart, .choice (relaxationNotes.map .literal), .lineEnd]

/-- `RELAXATION_NOTE_OPENER`. -/
def relaxationNoteOpener : String := "_Verdict relaxed"

/-- A note that a later verdict contradicts is marked as superseded. -/
def markRelaxationNotesSuperseded (a : ReviewArtifact) : ReviewArtifact :=
  { a with
    reviewMarkdown := relaxationNoteRe.replaceAll
      (fun m => "_Verdict relaxation superseded by enforcement: originally relaxed"
        ++ String.ofList (m.text.toList.drop relaxationNoteOpener.length))
      a.reviewMarkdown }

/-! ## Forcing a verdict -/

structure EnforcementOutcome where
  applied : Bool
  reason : String

/-- The outcome of a rule that does not apply. -/
def EnforcementOutcome.skipped : EnforcementOutcome := ⟨false, ""⟩

/-- Append the section and force the verdict. A flip is recorded as enforcement and retires the
relaxation notes. -/
def forceRequestChanges (a : ReviewArtifact) (sectionMd reason : String) :
    ReviewArtifact × EnforcementOutcome :=
  let forced := { a.append sectionMd with verdict := .requestChanges }
  (if a.verdict = .requestChanges then forced
    else markRelaxationNotesSuperseded { forced with verdictSource := some .enforcement },
    ⟨true, reason⟩)

end PrReviewer.Enforcement
