import PrReviewer.Js.Text
import PrReviewer.Enforcement.Settlement

/-!
# Enforcement overlays

`applyAllEnforcement` runs the configured rules over an artifact: evidence blockers, tool-harness failure
with the min-successful fallback and the obligation gate can force `request_changes`; thread and human
settlement follow, and a banner explains a forced verdict. `failClosedEnforcementFired` says, from the
inputs alone, whether one of the forcing rules fires.

The run of the rules is written as steps on `EnforcementRun`, the local state of the source function.
-/

open Js

namespace PrReviewer.Enforcement

/-! ## Inputs -/

structure EvidenceProvider where
  id : Option String := none
  providerSeverity : Option String := none

/-- An entry of `providers` that is `null` is `none`. -/
structure EvidenceProviderArtifact where
  hasBlocker : Option Bool := none
  providers : Option (List (Option EvidenceProvider)) := none

/-- `tool_results` holds the status of every result, `none` for a `null` entry or one without a status. -/
structure ToolHarnessArtifact where
  planningError : Option String := none
  error : Option String := none
  executedRequestCount : Option Number := none
  toolResults : Option (List (Option String)) := none

structure EnforcementInputs where
  evidenceBlockerEnabled : Bool := false
  toolFailureEnabled : Bool := false
  toolMinSuccessful : Number := 0
  evidence : Option EvidenceProviderArtifact := none
  toolHarness : Option ToolHarnessArtifact := none
  threads : Option (List (Option EnforcementThread)) := none
  humanReviews : Option (List (Option EnforcementHumanReview)) := none
  verdictPolicy : String := "strict"
  reviewObligations : Option (List ReviewObligation) := none

/-! ## Forcing rules -/

def applyEvidenceBlockerEnforcement (a : ReviewArtifact) (evidence : Option EvidenceProviderArtifact) :
    ReviewArtifact × EnforcementOutcome :=
  match evidence with
  | none => (a, .skipped)
  | some evidence =>
    if evidence.hasBlocker != some true then (a, .skipped)
    else
      let blockerIds := ((evidence.providers.getD []).reduceOption.filter
        fun p => p.providerSeverity == some "blocker").map (·.id.getD "")
      let ids := ", ".intercalate blockerIds
      forceRequestChanges a
        ("\n\n## Evidence Provider Blockers\n"
          ++ "One or more configured evidence providers reported blocker-level findings"
          ++ (if ids != "" then " (" ++ ids ++ ")" else "")
          ++ ". Resolve blocker findings before approval.")
        ("Evidence provider blocker detected"
          ++ (if ids != "" then ": " ++ ids else "")
          ++ ". One or more configured evidence providers reported blocker-level findings.")

/-- The results with the status `ok`. -/
def countSuccessfulRequests : Option ToolHarnessArtifact → Nat
  | none => 0
  | some harness => ((harness.toolResults.getD []).filter (· == some "ok")).length

def toolHarnessFailureReason : Option ToolHarnessArtifact → Option String
  | none => none
  | some harness =>
    match harness.planningError, harness.error with
    | some planningError, _ => some planningError
    | none, some error => some error
    | none, none =>
      let executed := harness.executedRequestCount.getD 0
      if executed > 0 then
        if !((harness.toolResults.getD []).any (· == some "ok")) then some "all tool requests failed"
        else none
      else none

/-- The reason, when it is truthy: an empty text does not count. -/
def truthy (reason : Option String) : Option String := reason.filter (· != "")

def applyToolHarnessFailureEnforcement (a : ReviewArtifact) (harness : Option ToolHarnessArtifact) :
    ReviewArtifact × EnforcementOutcome :=
  match truthy (toolHarnessFailureReason harness) with
  | none => (a, .skipped)
  | some reason =>
    forceRequestChanges a
      ("\n\n## Tool Harness Failure\n"
        ++ "The tool harness failed during planning or execution (" ++ reason ++ "). "
        ++ "This workflow is configured fail-closed for tool harness failures; "
        ++ "rerun after reducing tool planning context or fixing connectivity.")
      ("Tool harness failure detected (" ++ reason ++ "). "
        ++ "The tool harness failed during planning or execution; "
        ++ "this workflow is configured fail-closed for tool harness failures.")

def applyToolMinSuccessfulEnforcement (a : ReviewArtifact) (minRequired : Number)
    (harness : Option ToolHarnessArtifact) : ReviewArtifact × EnforcementOutcome :=
  let successful := countSuccessfulRequests harness
  if Number.ofNat successful ≥ minRequired then (a, .skipped)
  else
    forceRequestChanges a
      ("\n\n## Tool Harness Insufficient Evidence\n"
        ++ "This workflow requires at least " ++ numberToString minRequired
        ++ " successful tool requests, "
        ++ "but only " ++ toString successful
        ++ " succeeded. Rerun after adjusting tool planning settings.")
      ("Tool harness gathered insufficient evidence. "
        ++ "This workflow requires at least " ++ numberToString minRequired
        ++ " successful tool requests, "
        ++ "but only " ++ toString successful ++ " succeeded.")

/-! ## The banner -/

/-- `/^(#{1,6}\s*)?Recommendation:\s*Approve\s*$/gim`. -/
def recommendationRe : RegExp :=
  .concat
    [.lineStart,
      .opt (.group 1 (.seq (.upTo (.char (· == '#')) 6) (.star .space))),
      .literalIgnoreCase "Recommendation:",
      .star .space,
      .literalIgnoreCase "Approve",
      .star .space,
      .lineEnd]

def startsWith (s t : String) : Bool := t.toList.isPrefixOf s.toList

/-- `s.trimStart()`. -/
def trimStart (s : String) : String := String.ofList (s.toList.dropWhile isSpace)

def normalizeEnforcedReviewMarkdown (a : ReviewArtifact) (reasons : Option (List String)) :
    ReviewArtifact :=
  if a.verdict ≠ .requestChanges then a
  else
    let markdown := recommendationRe.replaceAll
      (fun m => (m.group? 1).getD "" ++ "Model recommendation before enforcement: Approve")
      a.reviewMarkdown
    let reasons := reasons.getD []
    let markdown :=
      if startsWith (trimStart markdown) "## Final Recommendation" then markdown
      else if reasons.length > 0 then
        "## Final Recommendation\n"
          ++ "Request changes. The following enforcement check(s) require this PR "
          ++ "to be treated as blocking even if the model's initial review text was approving:\n\n"
          ++ "\n".intercalate (reasons.map ("- " ++ ·)) ++ "\n\n"
          ++ trimStart markdown
      else
        "## Final Recommendation\n"
          ++ "Request changes. One or more configured enforcement checks require this PR "
          ++ "to be treated as blocking even if the model's initial review text was approving.\n\n"
          ++ trimStart markdown
    { a with reviewMarkdown := markdown }

/-- `ENFORCED_BANNER_RE`. -/
def enforcedBannerRe : RegExp :=
  .concat
    [.textStart,
      .literal "## Final Recommendation\nRequest changes. ",
      .alt
        (.concat
          [.literal ("The following enforcement check(s) require this PR to be treated as blocking "
              ++ "even if the model's initial review text was approving:\n\n"),
            .star (.concat [.literal "- ", .star (.char (· != '\n')), .char (· == '\n')]),
            .char (· == '\n')])
        (.literal ("One or more configured enforcement checks require this PR to be treated as "
          ++ "blocking even if the model's initial review text was approving.\n\n"))]

def reconcileEnforcedReviewMarkdown (a : ReviewArtifact) : ReviewArtifact :=
  if a.verdict = .requestChanges then a
  else { a with reviewMarkdown := enforcedBannerRe.replaceFirst (fun _ => "") a.reviewMarkdown }

/-! ## The signal -/

def failClosedEnforcementFired (inputs : EnforcementInputs) : Bool :=
  if inputs.evidenceBlockerEnabled && (inputs.evidence.bind (·.hasBlocker)) == some true then true
  else if inputs.toolFailureEnabled && (truthy (toolHarnessFailureReason inputs.toolHarness)).isSome then
    true
  else if inputs.toolFailureEnabled && inputs.toolMinSuccessful > 0
      && Number.ofNat (countSuccessfulRequests inputs.toolHarness) < inputs.toolMinSuccessful then
    true
  else
    (inputs.reviewObligations.getD []).any fun obligation =>
      obligation.status != .satisfied && isForcingObligation obligation

/-! ## All rules -/

/-- The artifact, the number of actions applied and the reasons of the rules that forced the verdict. -/
structure EnforcementRun where
  artifact : ReviewArtifact
  applied : Nat
  forcingReasons : List String

/-- Take over the result of a forcing rule. -/
def EnforcementRun.force (run : EnforcementRun) (result : ReviewArtifact × EnforcementOutcome) :
    EnforcementRun :=
  if result.2.applied then ⟨result.1, run.applied + 1, run.forcingReasons ++ [result.2.reason]⟩
  else { run with artifact := result.1 }

def evidenceStep (inputs : EnforcementInputs) (run : EnforcementRun) : EnforcementRun :=
  if inputs.evidenceBlockerEnabled then
    run.force (applyEvidenceBlockerEnforcement run.artifact inputs.evidence)
  else run

def toolStep (inputs : EnforcementInputs) (run : EnforcementRun) : EnforcementRun :=
  if inputs.toolFailureEnabled then
    let result := applyToolHarnessFailureEnforcement run.artifact inputs.toolHarness
    let failed := run.force result
    if result.2.applied then failed
    else if inputs.toolMinSuccessful > 0 then
      failed.force
        (applyToolMinSuccessfulEnforcement failed.artifact inputs.toolMinSuccessful inputs.toolHarness)
    else failed
  else run

def obligationStep (inputs : EnforcementInputs) (run : EnforcementRun) : EnforcementRun :=
  run.force (applyReviewObligationEnforcement run.artifact (inputs.reviewObligations.getD []))

def threadStep (inputs : EnforcementInputs) (run : EnforcementRun) : EnforcementRun :=
  let (artifact, threads) :=
    applyReviewThreadEnforcement run.artifact inputs.threads inputs.verdictPolicy
  if threads.applied then
    ⟨artifact, run.applied + 1,
      if run.artifact.verdict ≠ .requestChanges ∧ artifact.verdict = .requestChanges
      then run.forcingReasons ++ [threads.reason] else run.forcingReasons⟩
  else { run with artifact := artifact }

def humanReviewStep (inputs : EnforcementInputs) (run : EnforcementRun) : EnforcementRun :=
  let (artifact, humanReviews) := applyHumanReviewEnforcement run.artifact inputs.humanReviews
  if humanReviews.applied then { run with artifact := artifact, applied := run.applied + 1 }
  else { run with artifact := artifact }

def bannerStep (run : EnforcementRun) : EnforcementRun :=
  if run.forcingReasons.length > 0 then
    { run with artifact := normalizeEnforcedReviewMarkdown run.artifact (some run.forcingReasons) }
  else run

def EnforcementRun.start (a : ReviewArtifact) : EnforcementRun := ⟨a, 0, []⟩

/-- `applyAllEnforcement`: the rewritten artifact and the number of enforcement actions. -/
def applyAllEnforcement (a : ReviewArtifact) (inputs : EnforcementInputs) : ReviewArtifact × Nat :=
  let run := evidenceStep inputs (.start a)
  let run := toolStep inputs run
  let run := obligationStep inputs run
  let run := threadStep inputs run
  let run := humanReviewStep inputs run
  let run := bannerStep run
  (run.artifact, run.applied)

end PrReviewer.Enforcement
