import PrReviewer.Enforcement.Enforce
import PrReviewer.Enforcement.Overlay

/-!
# A forced verdict is never relaxed

- **Layers**: every forcing rule of `applyAllEnforcement` sets the verdict exactly on its own signal, a
  condition on the inputs (`layer_forces_iff`), and `failClosedEnforcementFired` is the disjunction of the
  four signals (`fired_iff_signal`). The later steps only raise the verdict.
- **Relaxers**: with the signal passed to them, any run of the relaxers is the identity
  (`relaxAll_of_forced`); without it they still leave the findings (`relaxAll_findings`).
-/

open Js Overlay List

namespace PrReviewer.Enforcement

/-! ## Forcing rules -/

/-- The view the overlays raise. -/
def EnforcementRun.verdict (run : EnforcementRun) : VerdictValue := run.artifact.verdict

@[simp] theorem markRelaxationNotesSuperseded_verdict (a : ReviewArtifact) :
    (markRelaxationNotesSuperseded a).verdict = a.verdict := by
  unfold markRelaxationNotesSuperseded
  generalize relaxationNoteRe.replaceAll _ _ = text
  rfl

@[simp] theorem append_verdict (a : ReviewArtifact) (text : String) :
    (a.append text).verdict = a.verdict := rfl

@[simp] theorem forceRequestChanges_verdict (a : ReviewArtifact) (sectionMd reason : String) :
    (forceRequestChanges a sectionMd reason).1.verdict = .requestChanges := by
  unfold forceRequestChanges
  dsimp only
  split <;> rfl

@[simp] theorem forceRequestChanges_applied (a : ReviewArtifact) (sectionMd reason : String) :
    (forceRequestChanges a sectionMd reason).2.applied = true := rfl

@[simp] theorem skipped_applied : EnforcementOutcome.skipped.applied = false := rfl

/-- The layers of `applyAllEnforcement` that can force the verdict. -/
inductive ForcingLayer where
  | evidence
  | toolHarness
  | minSuccessful
  | obligation
  deriving DecidableEq, Repr

/-- A rule that applies exactly when `fires`, and forces the verdict when it does. -/
structure IsForcingRule (fires : Bool) (rule : ReviewArtifact → ReviewArtifact × EnforcementOutcome) :
    Prop where
  applied : ∀ a, (rule a).2.applied = fires
  verdict : ∀ a, (rule a).1.verdict = if fires then .requestChanges else a.verdict

theorem isForcingRule_evidence (evidence : Option EvidenceProviderArtifact) :
    IsForcingRule (evidence.bind (·.hasBlocker) == some true)
      fun a => applyEvidenceBlockerEnforcement a evidence := by
  cases evidence with
  | none => constructor <;> intro a <;> simp [applyEvidenceBlockerEnforcement]
  | some evidence =>
    by_cases h : evidence.hasBlocker = some true <;>
      constructor <;> intro a <;> simp [applyEvidenceBlockerEnforcement, h]

theorem isForcingRule_toolHarness (harness : Option ToolHarnessArtifact) :
    IsForcingRule (truthy (toolHarnessFailureReason harness)).isSome
      fun a => applyToolHarnessFailureEnforcement a harness := by
  cases h : truthy (toolHarnessFailureReason harness) with
  | none => constructor <;> intro a <;> simp [applyToolHarnessFailureEnforcement, h]
  | some reason => constructor <;> intro a <;> simp [applyToolHarnessFailureEnforcement, h]

/-- The layer asks for `successful ≥ minRequired` and the signal for `successful < minRequired`; they
agree when the bound is a number, which one above 0 is. -/
theorem isForcingRule_minSuccessful {minRequired : Number} (h : minRequired > 0)
    (harness : Option ToolHarnessArtifact) :
    IsForcingRule (decide (Number.ofNat (countSuccessfulRequests harness) < minRequired))
      fun a => applyToolMinSuccessfulEnforcement a minRequired harness := by
  have hmin : minRequired.isNaN = false := Number.not_isNaN_of_zero_le (Number.le_of_lt h)
  have hcount := Number.not_isNaN_of_zero_le (Number.zero_le_ofNat (countSuccessfulRequests harness))
  have hle := Number.le_iff_not_lt hmin hcount
  by_cases hlt : Number.ofNat (countSuccessfulRequests harness) < minRequired
  · have hge : ¬Number.ofNat (countSuccessfulRequests harness) ≥ minRequired := fun hge =>
      hle.mp hge hlt
    constructor <;> intro a <;> simp [applyToolMinSuccessfulEnforcement, hlt, hge]
  · have hge : Number.ofNat (countSuccessfulRequests harness) ≥ minRequired := hle.mpr hlt
    constructor <;> intro a <;> simp [applyToolMinSuccessfulEnforcement, hlt, hge]

theorem filter_unmet (obligations : List ReviewObligation) :
    ((obligations.filter fun o => o.status != .satisfied).filter isForcingObligation).length = 0 ↔
      (obligations.any fun o => o.status != .satisfied && isForcingObligation o) = false := by
  rw [length_eq_zero_iff, filter_filter, filter_eq_nil_iff, any_eq_false]
  simp only [Bool.and_comm]

theorem isForcingRule_obligation (obligations : List ReviewObligation) :
    IsForcingRule (obligations.any fun o => o.status != .satisfied && isForcingObligation o)
      fun a => applyReviewObligationEnforcement a obligations := by
  have hunmet := filter_unmet obligations
  cases hfires : obligations.any fun o => o.status != .satisfied && isForcingObligation o with
  | false =>
    have hnone := hunmet.mpr hfires
    constructor <;> intro a <;> unfold applyReviewObligationEnforcement <;> dsimp only <;>
      rw [if_pos hnone] <;> split <;> rfl
  | true =>
    have hsome : ¬_ := fun h => absurd (hfires.symm.trans (hunmet.mp h)) (by decide)
    have hopen : ¬(obligations.filter fun o => o.status != .satisfied).length = 0 := by
      intro h
      rw [length_eq_zero_iff.mp h] at hsome
      exact hsome rfl
    constructor <;> intro a <;> unfold applyReviewObligationEnforcement <;> dsimp only <;>
      rw [if_neg hopen, if_neg hsome] <;> simp

/-! ## The steps of the run -/

/-- The signal of a forcing layer, in the inputs alone. -/
def ForcingLayer.signal (inputs : EnforcementInputs) : ForcingLayer → Bool
  | .evidence => inputs.evidenceBlockerEnabled && inputs.evidence.bind (·.hasBlocker) == some true
  | .toolHarness =>
    inputs.toolFailureEnabled && (truthy (toolHarnessFailureReason inputs.toolHarness)).isSome
  | .minSuccessful =>
    inputs.toolFailureEnabled && decide (inputs.toolMinSuccessful > 0)
      && decide (Number.ofNat (countSuccessfulRequests inputs.toolHarness) < inputs.toolMinSuccessful)
  | .obligation =>
    (inputs.reviewObligations.getD []).any fun o => o.status != .satisfied && isForcingObligation o

/-- The signal of the enforcement is the disjunction of the signals of the layers. -/
theorem fired_iff_signal (inputs : EnforcementInputs) :
    failClosedEnforcementFired inputs = true ↔ ∃ layer : ForcingLayer, layer.signal inputs = true := by
  have hcases : (∃ layer : ForcingLayer, layer.signal inputs = true) ↔
      ForcingLayer.evidence.signal inputs = true ∨ ForcingLayer.toolHarness.signal inputs = true ∨
        ForcingLayer.minSuccessful.signal inputs = true ∨ ForcingLayer.obligation.signal inputs = true := by
    constructor
    · rintro ⟨layer, h⟩
      cases layer <;> simp only [h, true_or, or_true]
    · rintro (h | h | h | h)
      exacts [⟨_, h⟩, ⟨_, h⟩, ⟨_, h⟩, ⟨_, h⟩]
  rw [hcases]
  unfold failClosedEnforcementFired
  simp only [ForcingLayer.signal]
  split
  · next h => simp [h]
  · next hevidence =>
    split
    · next h => simp [h]
    · next hharness =>
      split
      · next h => simp [h]
      · next hmin => simp [hevidence, hharness, hmin]

theorem force_verdict {fires : Bool} {rule : ReviewArtifact → ReviewArtifact × EnforcementOutcome}
    (h : IsForcingRule fires rule) (run : EnforcementRun) :
    (run.force (rule run.artifact)).verdict = if fires then .requestChanges else run.verdict := by
  unfold EnforcementRun.force EnforcementRun.verdict
  split <;> exact h.verdict run.artifact

/-- A forcing rule as a step of the run. -/
theorem forcesIf_force {fires : Bool} {rule : ReviewArtifact → ReviewArtifact × EnforcementOutcome}
    (h : IsForcingRule fires rule) :
    ForcesIf EnforcementRun.verdict .requestChanges (fires = true)
      fun run => run.force (rule run.artifact) where
  force := by
    intro hfires run
    rw [force_verdict h, if_pos hfires]
  leave := by
    intro hfires run
    rw [force_verdict h, if_neg hfires]

theorem forcesIf_evidenceStep (inputs : EnforcementInputs) :
    ForcesIf EnforcementRun.verdict .requestChanges (ForcingLayer.evidence.signal inputs = true)
      (evidenceStep inputs) := by
  have hrule := forcesIf_force (isForcingRule_evidence inputs.evidence)
  unfold evidenceStep
  cases h : inputs.evidenceBlockerEnabled with
  | false => exact ⟨fun hs => by simp [ForcingLayer.signal, h] at hs, fun _ _ => rfl⟩
  | true => exact hrule.congr (by simp [ForcingLayer.signal, h])

theorem forcesIf_toolStep (inputs : EnforcementInputs) :
    ForcesIf EnforcementRun.verdict .requestChanges
      (ForcingLayer.toolHarness.signal inputs = true ∨ ForcingLayer.minSuccessful.signal inputs = true)
      (toolStep inputs) := by
  have hharness := isForcingRule_toolHarness inputs.toolHarness
  unfold toolStep
  cases henabled : inputs.toolFailureEnabled with
  | false =>
    exact ⟨fun hs => by simp [ForcingLayer.signal, henabled] at hs, fun _ _ => rfl⟩
  | true =>
    simp only [hharness.applied, if_true]
    cases hfails : (truthy (toolHarnessFailureReason inputs.toolHarness)).isSome with
    | true =>
      exact (forcesIf_force hharness).congr (by simp [ForcingLayer.signal, henabled, hfails])
    | false =>
      have hleave := (forcesIf_force hharness).leave (by simp [hfails])
      by_cases hmin : inputs.toolMinSuccessful > 0
      · have hrule := isForcingRule_minSuccessful hmin inputs.toolHarness
        simp only [if_pos hmin]
        exact ((forcesIf_force hharness).comp (forcesIf_force hrule)).congr
          (by simp [ForcingLayer.signal, henabled, hfails, hmin])
      · simp only [if_neg hmin]
        exact ⟨fun hs => by simp [ForcingLayer.signal, henabled, hfails, hmin] at hs, fun _ => hleave⟩

theorem forcesIf_obligationStep (inputs : EnforcementInputs) :
    ForcesIf EnforcementRun.verdict .requestChanges (ForcingLayer.obligation.signal inputs = true)
      (obligationStep inputs) :=
  forcesIf_force (isForcingRule_obligation (inputs.reviewObligations.getD []))

/-- The run after the forcing layers. -/
def forcingRun (inputs : EnforcementInputs) (a : ReviewArtifact) : EnforcementRun :=
  obligationStep inputs (toolStep inputs (evidenceStep inputs (.start a)))

/-- After the forcing layers the verdict is the given one, unless the signal is on. -/
theorem forcingRun_verdict (inputs : EnforcementInputs) (a : ReviewArtifact) :
    (forcingRun inputs a).artifact.verdict =
      if failClosedEnforcementFired inputs then .requestChanges else a.verdict := by
  have hlayers := ((forcesIf_evidenceStep inputs).comp (forcesIf_toolStep inputs)).comp
    (forcesIf_obligationStep inputs)
  have hiff := fired_iff_signal inputs
  split
  · next hfired =>
    obtain ⟨layer, hlayer⟩ := hiff.mp hfired
    apply hlayers.force
    cases layer <;> simp only [hlayer, true_or, or_true]
  · next hfired =>
    apply hlayers.leave
    rintro ((h | h | h) | h) <;> exact hfired (hiff.mpr ⟨_, h⟩)

theorem normalizeEnforcedReviewMarkdown_verdict (a : ReviewArtifact) (reasons : Option (List String)) :
    (normalizeEnforcedReviewMarkdown a reasons).verdict = a.verdict := by
  unfold normalizeEnforcedReviewMarkdown
  split <;> rfl

theorem bannerStep_verdict (run : EnforcementRun) : (bannerStep run).verdict = run.verdict := by
  unfold bannerStep EnforcementRun.verdict
  split
  · exact normalizeEnforcedReviewMarkdown_verdict _ _
  · rfl

theorem applyHumanReviewEnforcement_verdict (a : ReviewArtifact)
    (reviews : Option (List (Option EnforcementHumanReview))) :
    (applyHumanReviewEnforcement a reviews).1.verdict = a.verdict := by
  unfold applyHumanReviewEnforcement
  dsimp only
  split <;> rfl

theorem humanReviewStep_verdict (inputs : EnforcementInputs) (run : EnforcementRun) :
    (humanReviewStep inputs run).verdict = run.verdict := by
  unfold humanReviewStep EnforcementRun.verdict
  dsimp only
  split <;> exact applyHumanReviewEnforcement_verdict _ _

theorem applyReviewThreadEnforcement_raises (a : ReviewArtifact)
    (threads : Option (List (Option EnforcementThread))) (verdictPolicy : String) :
    (applyReviewThreadEnforcement a threads verdictPolicy).1.verdict = a.verdict ∨
      (applyReviewThreadEnforcement a threads verdictPolicy).1.verdict = .requestChanges := by
  unfold applyReviewThreadEnforcement
  dsimp only
  split
  · exact .inl rfl
  · split
    · exact .inl rfl
    · unfold escalateThreads
      dsimp only
      split
      · exact .inr (markRelaxationNotesSuperseded_verdict _)
      · exact .inl rfl

theorem raises_threadStep (inputs : EnforcementInputs) :
    Raises EnforcementRun.verdict .requestChanges (threadStep inputs) := by
  intro run
  have h := applyReviewThreadEnforcement_raises run.artifact inputs.threads inputs.verdictPolicy
  unfold threadStep EnforcementRun.verdict
  dsimp only
  split <;> exact h

/-- The steps after the forcing layers keep a forced verdict. -/
theorem applyAllEnforcement_of_forced (a : ReviewArtifact) {inputs : EnforcementInputs}
    (h : failClosedEnforcementFired inputs = true) :
    (applyAllEnforcement a inputs).1.verdict = .requestChanges := by
  have hforced : (forcingRun inputs a).verdict = .requestChanges := by
    unfold EnforcementRun.verdict
    rw [forcingRun_verdict, if_pos h]
  have hthreads := (raises_threadStep inputs).of_top hforced
  have hhuman := humanReviewStep_verdict inputs (threadStep inputs (forcingRun inputs a))
  have hbanner := bannerStep_verdict (humanReviewStep inputs (threadStep inputs (forcingRun inputs a)))
  exact hbanner.trans (hhuman.trans hthreads)

/-! ## The layers at their place in the run -/

/-- The result of a forcing layer where `applyAllEnforcement` runs it, on the artifact that reaches it;
a layer that is not run changes nothing. -/
def ForcingLayer.result (inputs : EnforcementInputs) (a : ReviewArtifact) :
    ForcingLayer → ReviewArtifact × EnforcementOutcome
  | .evidence =>
    if inputs.evidenceBlockerEnabled then applyEvidenceBlockerEnforcement a inputs.evidence
    else (a, .skipped)
  | .toolHarness =>
    let a := (evidenceStep inputs (.start a)).artifact
    if inputs.toolFailureEnabled then applyToolHarnessFailureEnforcement a inputs.toolHarness
    else (a, .skipped)
  | .minSuccessful =>
    let a := (evidenceStep inputs (.start a)).artifact
    let (a, failure) := applyToolHarnessFailureEnforcement a inputs.toolHarness
    if inputs.toolFailureEnabled && !failure.applied && decide (inputs.toolMinSuccessful > 0) then
      applyToolMinSuccessfulEnforcement a inputs.toolMinSuccessful inputs.toolHarness
    else (a, .skipped)
  | .obligation =>
    applyReviewObligationEnforcement (toolStep inputs (evidenceStep inputs (.start a))).artifact
      (inputs.reviewObligations.getD [])

/-- The layer applies in the run of `applyAllEnforcement` on `a`, and sets the verdict. -/
def ForcingLayer.Forces (inputs : EnforcementInputs) (a : ReviewArtifact) (layer : ForcingLayer) : Prop :=
  (layer.result inputs a).2.applied = true ∧ (layer.result inputs a).1.verdict = .requestChanges

theorem IsForcingRule.forces_iff {fires : Bool}
    {rule : ReviewArtifact → ReviewArtifact × EnforcementOutcome} (h : IsForcingRule fires rule)
    (a : ReviewArtifact) :
    (rule a).2.applied = true ∧ (rule a).1.verdict = .requestChanges ↔ fires = true := by
  rw [h.applied, h.verdict]
  cases fires <;> simp

/-- A layer forces exactly on its signal; the min-successful layer only runs when the harness did not
fail. -/
theorem layer_forces_iff (inputs : EnforcementInputs) (a : ReviewArtifact) (layer : ForcingLayer) :
    layer.Forces inputs a ↔ layer.signal inputs = true ∧
      (layer = .minSuccessful → ForcingLayer.toolHarness.signal inputs = false) := by
  unfold ForcingLayer.Forces ForcingLayer.result
  cases layer with
  | evidence =>
    cases h : inputs.evidenceBlockerEnabled with
    | false => simp [ForcingLayer.signal, h]
    | true =>
      simp only [if_true, (isForcingRule_evidence inputs.evidence).forces_iff]
      simp [ForcingLayer.signal, h]
  | toolHarness =>
    cases h : inputs.toolFailureEnabled with
    | false => simp [ForcingLayer.signal, h]
    | true =>
      simp only [if_true, (isForcingRule_toolHarness inputs.toolHarness).forces_iff]
      simp [ForcingLayer.signal, h]
  | minSuccessful =>
    simp only [(isForcingRule_toolHarness inputs.toolHarness).applied]
    cases h : inputs.toolFailureEnabled with
    | false => simp [ForcingLayer.signal, h]
    | true =>
      cases hfails : (truthy (toolHarnessFailureReason inputs.toolHarness)).isSome with
      | true => simp [ForcingLayer.signal, h, hfails]
      | false =>
        by_cases hmin : inputs.toolMinSuccessful > 0
        · simp only [hmin, Bool.not_false, Bool.and_true, decide_true, if_true,
            (isForcingRule_minSuccessful hmin inputs.toolHarness).forces_iff]
          simp [ForcingLayer.signal, h, hfails, hmin]
        · simp [ForcingLayer.signal, h, hmin]
  | obligation =>
    dsimp only
    rw [(isForcingRule_obligation (inputs.reviewObligations.getD [])).forces_iff]
    simp [ForcingLayer.signal]

/-- The signal is on exactly when a layer forces. -/
theorem fired_iff_forces (inputs : EnforcementInputs) (a : ReviewArtifact) :
    failClosedEnforcementFired inputs = true ↔ ∃ layer : ForcingLayer, layer.Forces inputs a := by
  simp only [fired_iff_signal, layer_forces_iff]
  constructor
  · rintro ⟨layer, hlayer⟩
    by_cases hharness : ForcingLayer.toolHarness.signal inputs = true
    · exact ⟨.toolHarness, hharness, fun h => by cases h⟩
    · exact ⟨layer, hlayer, fun _ => Bool.eq_false_iff.mpr hharness⟩
  · rintro ⟨layer, hlayer, -⟩
    exact ⟨layer, hlayer⟩

/-! ## Runs of the relaxers -/

inductive Relaxer where
  | verificationOnly
  | ciOnly
  | unverifiedBlocker
  deriving DecidableEq, Repr

def Relaxer.call : Relaxer → ReviewArtifact → RelaxOptions → ReviewArtifact × Bool
  | .verificationOnly => relaxVerificationOnlyVerdict
  | .ciOnly => relaxCiOnlyVerdict
  | .unverifiedBlocker => relaxUnverifiedBlockerVerdict

/-- Calls of relaxers one after another, each with its own list of unmet obligations, all with the same
signal. -/
def relaxAll (forced : Bool) (calls : List (Relaxer × Option (List String))) (a : ReviewArtifact) :
    ReviewArtifact :=
  calls.foldl (fun a call => (call.1.call a ⟨forced, call.2⟩).1) a

theorem relax_of_forced (relaxable : List ArtifactFinding → Bool) (note : String) (a : ReviewArtifact)
    (unmet : Option (List String)) : (relax relaxable note a ⟨true, unmet⟩).1 = a := by
  unfold relax
  split
  · rfl
  · rw [if_pos (by simp [canRelaxForCiOnly])]

theorem relax_findings (relaxable : List ArtifactFinding → Bool) (note : String) (a : ReviewArtifact)
    (options : RelaxOptions) : (relax relaxable note a options).1.findings = a.findings := by
  unfold relax
  split
  · rfl
  · split
    · rfl
    · split
      · rfl
      · split
        · rfl
        · split <;> rfl

theorem relaxAll_of_forced (calls : List (Relaxer × Option (List String))) (a : ReviewArtifact) :
    relaxAll true calls a = a := by
  unfold relaxAll
  induction calls with
  | nil => rfl
  | cons call calls ih =>
    have hcall : (call.1.call a ⟨true, call.2⟩).1 = a := by
      cases call.1 <;> exact relax_of_forced _ _ _ _
    rw [foldl_cons, hcall]
    exact ih

theorem relaxAll_findings (forced : Bool) (calls : List (Relaxer × Option (List String)))
    (a : ReviewArtifact) : (relaxAll forced calls a).findings = a.findings := by
  unfold relaxAll
  induction calls generalizing a with
  | nil => rfl
  | cons call calls ih =>
    have hcall : (call.1.call a ⟨forced, call.2⟩).1.findings = a.findings := by
      cases call.1 <;> exact relax_findings _ _ _ _
    rw [foldl_cons, ih, hcall]

/-! ## The strict mapping -/

/-- A finding of severity blocker or major outside the verification category. -/
def Blocking (finding : ArtifactFinding) : Prop :=
  (finding.severity = .blocker ∨ finding.severity = .major) ∧ finding.category ≠ "verification"

/-- The severity before a cap lowered it. -/
def originalSeverity (finding : ArtifactFinding) : String :=
  finding.cappedFrom.getD finding.severity.text

/-- An unverified finding that was a blocker or a major one. -/
def UnverifiedBlocking (finding : ArtifactFinding) : Prop :=
  finding.groundingStatus = some .unverified ∧
    (originalSeverity finding = "blocker" ∨ originalSeverity finding = "major")

theorem isBlockingFinding_iff (finding : ArtifactFinding) :
    isBlockingFinding finding = true ↔ Blocking finding := by
  unfold isBlockingFinding isBlockingSeverity isAlwaysNonBlockingCategory alwaysNonBlockingCategories
    Blocking
  cases finding.severity <;> simp [Severity.text]

theorem isUnverifiedBlockingGrounding_iff (finding : ArtifactFinding) :
    isUnverifiedBlockingGrounding finding = true ↔ UnverifiedBlocking finding := by
  unfold isUnverifiedBlockingGrounding UnverifiedBlocking originalSeverity
  by_cases hstatus : finding.groundingStatus = some .unverified
  · cases hcap : finding.cappedFrom with
    | some original => simp [hstatus]
    | none =>
      simp only [hstatus, Option.getD_none]
      cases finding.severity <;> simp [Severity.text]
  · simp [hstatus]

/-- What the strict mapping asks of the findings, the signal and the obligations to approve. -/
def NothingBlocks (findings : List ArtifactFinding) (forced : Bool) (unmet : List String) : Prop :=
  forced = false ∧ (∀ finding ∈ findings, ¬Blocking finding) ∧
    (∀ finding ∈ findings, ¬UnverifiedBlocking finding) ∧ unmet = []

theorem severityCounts_blocking (findings : List ArtifactFinding) :
    (severityCounts findings).blocking > 0 ↔ ∃ finding ∈ findings, Blocking finding := by
  simp only [severityCounts, gt_iff_lt, countP_pos_iff, isBlockingFinding_iff]

theorem any_unverifiedBlocking (findings : List ArtifactFinding) :
    findings.any isUnverifiedBlockingGrounding = true ↔
      ∃ finding ∈ findings, UnverifiedBlocking finding := by
  simp only [any_eq_true, isUnverifiedBlockingGrounding_iff]

/-- The strict mapping approves exactly when nothing blocks. -/
theorem strict_approves_iff (a : ReviewArtifact) (options : StrictOptions) :
    (applyStrictVerdictPolicy a options).2.verdict = .approve ↔
      NothingBlocks a.openFindings options.forced (options.unmetReviewObligations.getD []) := by
  have hblocking := severityCounts_blocking a.openFindings
  have hunverified := any_unverifiedBlocking a.openFindings
  unfold applyStrictVerdictPolicy NothingBlocks
  dsimp only
  split
  · next h =>
    obtain ⟨finding, hmem, hfinding⟩ := hblocking.mp h
    exact ⟨(fun hv => nomatch hv), fun hn => absurd hfinding (hn.2.1 finding hmem)⟩
  · next hnone =>
    split
    · next h =>
      refine ⟨(fun hv => nomatch hv), fun hn => ?_⟩
      rw [Bool.or_eq_true] at h
      rcases h with h | h
      · exact absurd (h.symm.trans hn.1) (by decide)
      · obtain ⟨finding, hmem, hfinding⟩ := hunverified.mp h
        exact absurd hfinding (hn.2.2.1 finding hmem)
    · next hfree =>
      rw [Bool.or_eq_true, not_or] at hfree
      split
      · next h =>
        exact ⟨(fun hv => nomatch hv), fun hn => by rw [hn.2.2.2] at h; exact absurd h (by decide)⟩
      · next hunmet =>
        refine ⟨fun _ => ⟨Bool.eq_false_iff.mpr hfree.1, fun finding hmem hfinding => ?_,
          fun finding hmem hfinding => ?_, ?_⟩, fun _ => rfl⟩
        · exact hnone (hblocking.mpr ⟨finding, hmem, hfinding⟩)
        · exact hfree.2 (hunverified.mpr ⟨finding, hmem, hfinding⟩)
        · exact length_eq_zero_iff.mp (by omega)

/-- What blocks keeps blocking when findings, the signal or obligations are added. -/
theorem NothingBlocks.mono {findings findings' : List ArtifactFinding} {forced forced' : Bool}
    {unmet unmet' : List String} (h : NothingBlocks findings' forced' unmet')
    (hfindings : findings ⊆ findings') (hforced : forced = true → forced' = true)
    (hunmet : unmet ⊆ unmet') : NothingBlocks findings forced unmet := by
  obtain ⟨hf, hb, hu, ho⟩ := h
  refine ⟨?_, fun f hmem => hb f (hfindings hmem), fun f hmem => hu f (hfindings hmem), ?_⟩
  · by_contra hon
    exact absurd (hforced (Bool.eq_true_of_not_eq_false hon)) (by simp [hf])
  · rw [ho] at hunmet
    exact eq_nil_of_subset_nil hunmet

/-! ## The claim -/

/-- The signal agrees with the layers of `applyAllEnforcement`; a forced verdict survives every run of
relaxers that are given the signal, on any artifact; the strict mapping run last approves exactly when
nothing blocks, so more findings, a signal turned on or more unmet obligations never turn its
`request_changes` into an approve. -/
theorem forced_never_relaxed (inputs : EnforcementInputs) (a b : ReviewArtifact)
    (calls : List (Relaxer × Option (List String))) (modelVerdict : String)
    (unmet : Option (List String)) :
    let forced := failClosedEnforcementFired inputs
    let strict := applyStrictVerdictPolicy (relaxAll forced calls b) ⟨modelVerdict, forced, unmet⟩
    (forced = true ↔ ∃ layer : ForcingLayer, layer.Forces inputs a) ∧
    (forcingRun inputs a).artifact.verdict = (if forced then .requestChanges else a.verdict) ∧
    ((∃ layer : ForcingLayer, layer.Forces inputs a) →
      (applyAllEnforcement a inputs).1.verdict = .requestChanges ∧
        (relaxAll forced calls (applyAllEnforcement a inputs).1).verdict = .requestChanges ∧
        (relaxAll forced calls b).verdict = b.verdict) ∧
    strict.1.verdict = strict.2.verdict ∧
    (strict.2.verdict = .approve ↔ forced = false ∧
      (∀ finding ∈ b.openFindings, ¬Blocking finding) ∧
      (∀ finding ∈ b.openFindings, ¬UnverifiedBlocking finding) ∧ unmet.getD [] = []) ∧
    ∀ (inputs' : EnforcementInputs) (b' : ReviewArtifact)
      (calls' : List (Relaxer × Option (List String))) (modelVerdict' : String)
      (unmet' : Option (List String)),
      let forced' := failClosedEnforcementFired inputs'
      b.openFindings ⊆ b'.openFindings → (forced = true → forced' = true) →
      unmet.getD [] ⊆ unmet'.getD [] → strict.2.verdict = .requestChanges →
      (applyStrictVerdictPolicy (relaxAll forced' calls' b') ⟨modelVerdict', forced', unmet'⟩).2.verdict =
        .requestChanges := by
  intro forced strict
  have hopen : ∀ forced calls b, (relaxAll forced calls b).openFindings = b.openFindings := by
    intro forced calls b
    unfold ReviewArtifact.openFindings
    rw [relaxAll_findings]
  have hfired := fired_iff_forces inputs a
  refine ⟨hfired, forcingRun_verdict inputs a, ?_, rfl, ?_, ?_⟩
  · intro hforces
    have hon : forced = true := hfired.mpr hforces
    have hall := applyAllEnforcement_of_forced a hon
    rw [hon, relaxAll_of_forced, relaxAll_of_forced]
    exact ⟨hall, hall, rfl⟩
  · rw [strict_approves_iff, hopen]
    rfl
  · intro inputs' b' calls' modelVerdict' unmet' forced' hfindings hforced hunmet hblocks
    have hnot : ∀ v : VerdictValue, v = .requestChanges ↔ v ≠ .approve := by
      intro v
      cases v <;> simp
    rw [hnot, ne_eq, strict_approves_iff, hopen] at hblocks ⊢
    exact fun hfree => hblocks (hfree.mono hfindings hforced hunmet)

/-- An evidence blocker against an approve whose only finding is a verification request. -/
theorem forced_never_relaxed_blocker :
    let inputs : EnforcementInputs :=
      { evidenceBlockerEnabled := true, evidence := some { hasBlocker := some true } }
    let a : ReviewArtifact :=
      { verdict := .approve, findings := some [{ severity := .minor, category := "verification" }] }
    let calls := [(Relaxer.ciOnly, none), (Relaxer.verificationOnly, none)]
    (relaxAll true calls (applyAllEnforcement a inputs).1).verdict = .requestChanges ∧
      (applyStrictVerdictPolicy a ⟨"approve", true, none⟩).2.verdict = .requestChanges := by
  intro inputs a calls
  have hfired : failClosedEnforcementFired inputs = true := by decide
  have hclaim := forced_never_relaxed inputs a a calls "approve" none
  obtain ⟨hforces, -, hrelax, -, hstrict, hmono⟩ := hclaim
  rw [hfired] at hrelax hstrict hmono hforces
  refine ⟨(hrelax (hforces.mp rfl)).2.1, ?_⟩
  refine hmono inputs a [] "approve" none (List.Subset.refl _) (fun _ => hfired) (List.Subset.refl _) ?_
  by_contra hne
  have happrove : (applyStrictVerdictPolicy (relaxAll true calls a) ⟨"approve", true, none⟩).2.verdict =
      .approve := by
    revert hne
    cases (applyStrictVerdictPolicy (relaxAll true calls a) ⟨"approve", true, none⟩).2.verdict <;> simp
  exact absurd (hstrict.mp happrove).1 (by decide)

end PrReviewer.Enforcement
