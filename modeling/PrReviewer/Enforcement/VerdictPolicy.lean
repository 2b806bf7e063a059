import PrReviewer.Enforcement.Artifact

/-!
# The verdict policy

- **Relaxers**: `relaxVerificationOnlyVerdict`, `relaxCiOnlyVerdict` and `relaxUnverifiedBlockerVerdict`
  turn a `request_changes` of the model into an approve. They share their guards (`relax`) and differ in
  the findings they accept and in the note they leave.
- **Strict mapping** (`applyStrictVerdictPolicy`): the verdict as a function of the open findings, of the
  signal of the fail-closed layers and of the unmet obligations.
-/

open Js

namespace PrReviewer.Enforcement

/-! ## Findings -/

/-- `ALWAYS_NON_BLOCKING_CATEGORIES`. -/
def alwaysNonBlockingCategories : List String := ["verification"]

def isAlwaysNonBlockingCategory (category : String) : Bool :=
  alwaysNonBlockingCategories.contains category

def isBlockingSeverity (severity : String) : Bool := severity == "blocker" || severity == "major"

def isBlockingFinding (finding : ArtifactFinding) : Bool :=
  isBlockingSeverity finding.severity.text && !isAlwaysNonBlockingCategory finding.category

def isRefutedOrUnsupportedGrounding (finding : ArtifactFinding) : Bool :=
  finding.groundingStatus == some .refuted || finding.groundingStatus == some .unsupported

def isUnverifiedGrounding (finding : ArtifactFinding) : Bool :=
  finding.groundingStatus == some .unverified

/-- An unverified finding whose severity was blocking before a cap lowered it. -/
def isUnverifiedBlockingGrounding (finding : ArtifactFinding) : Bool :=
  if finding.groundingStatus != some .unverified then false
  else
    match finding.cappedFrom with
    | some original => original == "blocker" || original == "major"
    | none => finding.severity == .blocker || finding.severity == .major

/-! ## Relaxers -/

structure RelaxOptions where
  forced : Bool
  unmetReviewObligations : Option (List String) := none

def hasUnresolvedRequiredCheck (a : ReviewArtifact) : Bool :=
  match a.requiredCheckDispositions with
  | none => false
  | some rows => rows.any fun row =>
      let status := (row.get "status").string?
      status == some "unresolved" || status == some "unmet"

def canRelaxForCiOnly (a : ReviewArtifact) (forced : Bool) (unmetReviewObligations : List String) :
    Bool :=
  unmetReviewObligations.length == 0
    && !forced
    && !hasUnresolvedRequiredCheck a
    && a.requiredChecks != some "incomplete"
    && a.requirementTraceIncomplete != some true

/-- What the relaxers share: a `request_changes` that no gate holds becomes an approve when there are
findings and `relaxable` accepts them. The flag is the result of the function. -/
def relax (relaxable : List ArtifactFinding → Bool) (note : String) (a : ReviewArtifact)
    (options : RelaxOptions) : ReviewArtifact × Bool :=
  if a.verdict ≠ .requestChanges then (a, false)
  else if !canRelaxForCiOnly a options.forced (options.unmetReviewObligations.getD []) then (a, false)
  else
    match a.findings with
    | none => (a, false)
    | some findings =>
      if findings.length == 0 then (a, false)
      else if !relaxable findings then (a, false)
      else
        ({ a.append ("\n\n" ++ note) with verdict := .approve, verdictSource := some .findings }, true)

def relaxVerificationOnlyVerdict : ReviewArtifact → RelaxOptions → ReviewArtifact × Bool :=
  relax (fun findings => findings.all fun finding => isAlwaysNonBlockingCategory finding.category)
    verificationOnlyRelaxationNote

def relaxCiOnlyVerdict : ReviewArtifact → RelaxOptions → ReviewArtifact × Bool :=
  relax
    (fun findings => findings.all fun finding =>
      isAlwaysNonBlockingCategory finding.category
        || (finding.ciCapped == some true && finding.severity == .info))
    ciOnlyRelaxationNote

def relaxUnverifiedBlockerVerdict : ReviewArtifact → RelaxOptions → ReviewArtifact × Bool :=
  relax
    (fun findings =>
      !findings.any isUnverifiedGrounding
        && (findings.all fun finding =>
          isAlwaysNonBlockingCategory finding.category
            || isRefutedOrUnsupportedGrounding finding
            || (finding.ciCapped == some true && finding.severity == .info))
        && findings.any isRefutedOrUnsupportedGrounding)
    refutedGroundingRelaxationNote

/-! ## The strict mapping -/

inductive StrictReviewResult where
  | issues
  | partialCoverage
  | findings
  | clean
  deriving DecidableEq, Repr

def strictReviewResult (verdict : VerdictValue) (findings : List ArtifactFinding)
    (requiredChecks : Option String) : StrictReviewResult :=
  if verdict = .requestChanges then .issues
  else if requiredChecks = some "incomplete" then .partialCoverage
  else if findings.length > 0 then .findings
  else .clean

structure StrictVerdictOutcome where
  verdict : VerdictValue
  reviewResult : StrictReviewResult
  source : VerdictSource
  overridden : Bool

structure SeverityCounts where
  blocking : Nat
  total : Nat

def severityCounts (findings : List ArtifactFinding) : SeverityCounts :=
  ⟨findings.countP isBlockingFinding, findings.length⟩

def appendStrictNote (a : ReviewArtifact) (detail modelVerdict : String) : ReviewArtifact :=
  a.append ("\n\n_Verdict set from open findings (verdict_policy=strict): " ++ detail ++ "; "
    ++ "model verdict was '" ++ modelVerdict ++ "'._")

/-- The signals that set the verdict, in one line. -/
def strictRequestChangesDetail (counts : SeverityCounts) (unverifiedGrounding forced : Bool)
    (obligations : List String) : String :=
  let parts :=
    (if counts.blocking > 0 then
      [toString counts.blocking ++ " blocker/major finding(s) out of " ++ toString counts.total
        ++ " open"] else [])
    ++ (if unverifiedGrounding then
      ["blocker-verification boundary could not confirm a demoted source claim (unknown evidence, not refuted; #1016)"]
      else [])
    ++ (if forced then ["a fail-closed enforcement layer forced request_changes"] else [])
    ++ (if obligations.length > 0 then
      ["required review evidence unresolved: " ++ ", ".intercalate obligations ++ " (#1381)"] else [])
  if parts.length = 0 then "request_changes" else "; ".intercalate parts

structure StrictOptions where
  modelVerdict : String
  forced : Bool
  unmetReviewObligations : Option (List String) := none

def applyStrictVerdictPolicy (a : ReviewArtifact) (options : StrictOptions) :
    ReviewArtifact × StrictVerdictOutcome :=
  let findings := a.openFindings
  let counts := severityCounts findings
  let unverifiedGrounding := findings.any isUnverifiedBlockingGrounding
  let unmetObligations := options.unmetReviewObligations.getD []
  let detail :=
    strictRequestChangesDetail counts unverifiedGrounding options.forced unmetObligations
  let blocks := options.modelVerdict != "request_changes"
  let approves := options.modelVerdict != "approve"
  let noted (detail : String) := appendStrictNote a detail options.modelVerdict
  let (artifact, verdict, overridden, source) :=
    if counts.blocking > 0 then
      (if blocks then noted detail else a, VerdictValue.requestChanges, blocks,
        if blocks then VerdictSource.findings else .model)
    else if options.forced || unverifiedGrounding then
      (if blocks then noted detail else a, .requestChanges, blocks,
        if blocks then .enforcement else .model)
    else if unmetObligations.length > 0 then
      -- here the note is written also when the model agrees
      (noted detail, .requestChanges, blocks, if blocks then .enforcement else .model)
    else
      (if approves then
          noted (if counts.total > 0
            then "no blocker or major finding out of " ++ toString counts.total ++ " open"
            else "no open findings")
        else a, .approve, approves, if approves then .findings else .model)
  ({ artifact with verdict := verdict, verdictSource := some source },
    ⟨verdict, strictReviewResult verdict findings a.requiredChecks, source, overridden⟩)

end PrReviewer.Enforcement
