import PrReviewer.Publish.Cleanup

/-!
# The publication of a review (`publish/publish.ts`)

`publishReview` with what it calls, in the source's order: the head check, the reviewer request, the
feedback read, the snapshot for the cleanup, the publication of the mode, the cleanup and the label.

What the texts say does not matter here, so the renderers enter as a `Rendering`, one function a text.
Log lines and the outcome ledger, which no call depends on, are left out.
-/

namespace PrReviewer.Publish

open Js

/-! ## The input -/

inductive PublishMode where
  | comment
  | review_comment
  | review_verdict
  | review_blockers
  deriving DecidableEq, Repr

def PublishMode.name : PublishMode → String
  | .comment => "comment"
  | .review_comment => "review_comment"
  | .review_verdict => "review_verdict"
  | .review_blockers => "review_blockers"

inductive RoutingStatus where
  | request
  | requested
  | request_failed
  | invalid
  | other
  deriving DecidableEq, Repr

structure HumanReviewRoutingPlan where
  mode : String
  status : RoutingStatus
  users : List String
  teams : List String
  deriving DecidableEq, Repr

/-- `PublishInput`, less the fields that only the renderers read. -/
structure PublishInput where
  mode : PublishMode
  verdict : String
  verdictPolicy : Option String
  headSha : String
  prNumber : String
  commentMarker : String
  requiredChecks : String
  incompleteReason : Option String
  inlineFindings : Bool
  findings : Value
  cleanupPreviousNativeReviews : String
  approveForks : Bool
  isForkPr : Option Bool
  rerunLabel : Option String
  derivedObligationState : Option String
  requiredEvidenceState : Option String
  /-- Whether there is a partial-coverage record. -/
  partialCoverage : Bool
  coverageUnknown : Bool
  degradedGateBypass : Bool
  reviewRouting : Option HumanReviewRoutingPlan

/-- What `buildInlineComments` gives: the comments, and the replacements they carry by identity. -/
structure Built where
  comments : List NativeReviewComment
  published : List (String × String)
  deriving DecidableEq, Repr

/-- The texts of one publication, the feedback read behind them, and the host's `Date.parse`. -/
structure Rendering where
  readFeedbackState : Side (List String)
  buildInlineComments : List String → Built
  stickyBody : Option HumanReviewRoutingPlan → Built → String
  recoveryBody : Option HumanReviewRoutingPlan → Built → String
  nativeBody : Option HumanReviewRoutingPlan → Built → String
  fallbackBody : Option HumanReviewRoutingPlan → Built → String
  dateParse : String → Option Int

/-! ## Coverage -/

inductive IncompleteReason where
  | none
  | execution
  | requirement_trace
  | both
  deriving DecidableEq, Repr

/-- `isIncompleteReason`, with the reason it recognises. -/
def IncompleteReason.ofString : String → Option IncompleteReason
  | "none" => some .none
  | "execution" => some .execution
  | "requirement_trace" => some .requirement_trace
  | "both" => some .both
  | _ => Option.none

inductive ReviewResult where
  | clean
  | findings
  | partialReview
  | issues
  deriving DecidableEq, Repr

/-- An obligation or evidence state that withholds an approval. -/
def isGap (state : Option String) : Bool :=
  state = some "unresolved" || state = some "unavailable"

/-- `enforcement/verdict-policy.ts`. -/
def strictReviewResult (verdict : String) (findings : Value) (requiredChecks : String) :
    ReviewResult :=
  if verdict = "request_changes" then .issues
  else if requiredChecks = "incomplete" then .partialReview
  else match findings with
  | .array (_ :: _) => .findings
  | _ => .clean

def coverageGap (input : PublishInput) : Bool :=
  input.partialCoverage || input.coverageUnknown || input.degradedGateBypass
    || isGap input.derivedObligationState || isGap input.requiredEvidenceState

def markerReviewResult (input : PublishInput) : ReviewResult :=
  if input.verdictPolicy ≠ some "strict" then
    if input.verdict = "request_changes" then .issues
    else if input.requiredChecks = "incomplete" || coverageGap input then .partialReview
    else .clean
  else
    let result := strictReviewResult input.verdict input.findings input.requiredChecks
    if coverageGap input && result ≠ .issues then .partialReview else result

def resolveIncompleteReason (input : PublishInput) : IncompleteReason :=
  let reason := input.incompleteReason.bind IncompleteReason.ofString
  let trace := reason = some .requirement_trace || reason = some .both
  let execution := reason = some .execution || reason = some .both
    || (reason = Option.none || reason = some .none) && input.requiredChecks = "incomplete"
    || input.partialCoverage || input.coverageUnknown
  if execution && trace then .both
  else if execution then .execution
  else if trace then .requirement_trace
  else .none

/-! ## Guardrails -/

structure Guardrails where
  canApprove : Bool
  scopeBlocked : Bool
  verdictAllowsApproval : Bool
  derivedBlocked : Bool
  requiredEvidenceBlocked : Bool
  deriving DecidableEq, Repr

def evaluateApprovalGuardrails (verdict : String) (approveForks : Bool) (isForkPr : Option Bool)
    (derivedObligationState requiredEvidenceState : Option String) : Guardrails :=
  let verdictAllowsApproval := decide (verdict = "approve")
  -- an unknown fork status is taken for a fork
  let isFork := isForkPr.getD true
  let scopeBlocked := verdictAllowsApproval && isFork && !approveForks
  let derivedBlocked := verdictAllowsApproval && isGap derivedObligationState
  let requiredEvidenceBlocked := verdictAllowsApproval && isGap requiredEvidenceState
  { canApprove :=
      verdictAllowsApproval && !scopeBlocked && !derivedBlocked && !requiredEvidenceBlocked
    scopeBlocked, verdictAllowsApproval, derivedBlocked, requiredEvidenceBlocked }

def isValidPublishVerdict (verdict : String) : Bool :=
  verdict = "approve" || verdict = "request_changes"

def completeCoverage (input : PublishInput) : Bool :=
  !input.partialCoverage && !input.coverageUnknown && markerReviewResult input ≠ .partialReview
    && resolveIncompleteReason input = .none && !input.degradedGateBypass

def canApprove (input : PublishInput) : Bool :=
  let guardrails := evaluateApprovalGuardrails input.verdict input.approveForks input.isForkPr
    input.derivedObligationState input.requiredEvidenceState
  input.mode = .review_verdict && guardrails.canApprove && completeCoverage input
    && !input.degradedGateBypass

/-! ## Native submission -/

def createReview (request : NativeReviewRequest) : Publishing CreateReviewResult :=
  Async.call (Call.createReview request)

structure SubmitResult where
  ok : Bool
  fellBack : Bool
  error : Option String
  reviewId : Option String
  deriving DecidableEq, Repr

/-- The review bound to the reviewed commit; if the platform refuses it, the plain review. -/
def submitNativeReview (event : NativeReviewEvent) (body : String) (fallbackBody : Option String)
    (commitId : String) (comments : List NativeReviewComment) : Publishing SubmitResult := do
  let commit_id := if commitId = "" then none else some commitId
  let created ← createReview { body, event, comments, commit_id }
  if created.ok then
    return { ok := true, fellBack := false, error := none, reviewId := created.reviewId }
  else
    let plain ← createReview
      { body := fallbackBody.getD body, event, comments := [], commit_id := none }
    if plain.ok then
      return { ok := true, fellBack := true, error := none, reviewId := plain.reviewId }
    else
      return { ok := false, fellBack := true, error := plain.error.or created.error,
               reviewId := none }

/-! ## The publication of each mode -/

inductive PublishStatus where
  | published
  | superseded
  | failed
  deriving DecidableEq, Repr

structure PublishResult where
  status : PublishStatus
  error : Option String
  deriving DecidableEq, Repr

def failed (error : String) : PublishResult := ⟨.failed, some error⟩

/-- What the publication step leaves for the cleanup. -/
structure Publication where
  nativeReviewId : Option String := none
  stickyCommentId : Option String := none
  stickyUpdatedAt : Option String := none
  stickyBody : Option String := none
  stickyCheckpointUsable : Bool := true
  fallbackSubmission : Bool := false
  deriving DecidableEq, Repr

def upsertStickyComment (marker body : String) : Publishing StickyResult :=
  (side (.upsertStickyComment marker body)).publishing

/-- The sticky comment holds `body`. -/
def Publication.withSticky (p : Publication) (result : StickyResult) (body : String) :
    Publication :=
  { p with stickyCommentId := result.commentId, stickyUpdatedAt := result.updatedAt,
           stickyBody := some body }

def publishComment (text : Rendering) (input : PublishInput)
    (routing : Option HumanReviewRoutingPlan) (built : Built) :
    Publishing (Except PublishResult Publication) := do
  let result ← upsertStickyComment input.commentMarker (text.stickyBody routing built)
  if result.ok then return .ok {}
  else return .error (failed
    ("sticky comment publication failed: " ++ result.error.getD "unknown error"))

def publishReviewComment (nativeSurface : NativeReviewSurface) (text : Rendering)
    (input : PublishInput) (routing : Option HumanReviewRoutingPlan) (built : Built) :
    Publishing (Except PublishResult Publication) := do
  let body := text.stickyBody routing built
  let result ← upsertStickyComment input.commentMarker body
  if !result.ok then
    return .error (failed
      ("sticky comment publication failed: " ++ result.error.getD "unknown error"))
  else
    let published := ({} : Publication).withSticky result body
    if !nativeSurface.supported || built.comments = [] then return .ok published
    else
      let inlineBody := input.commentMarker ++
        "\n_Inline findings from the automated review (summary in the sticky comment)._"
      -- a throw is a failed submission too
      let submitted ← tryCatch
        (createReview { body := inlineBody, event := .COMMENT, commit_id := some input.headSha,
                        comments := built.comments })
        (fun e => return ⟨false, some e.message, none⟩)
      if submitted.ok then return .ok { published with nativeReviewId := submitted.reviewId }
      else
        let published := { published with stickyCheckpointUsable := false }
        let recoveryBody := text.recoveryBody routing built
        if recoveryBody = body then return .ok published
        else
          let recovery ← upsertStickyComment input.commentMarker recoveryBody
          if recovery.ok then return .ok (published.withSticky recovery recoveryBody)
          else return .ok published

/-- The event of a native review. -/
def nativeEvent (input : PublishInput) : NativeReviewEvent :=
  if input.verdict = "request_changes" then .REQUEST_CHANGES
  else if canApprove input then .APPROVE
  else .COMMENT

def publishNative (nativeSurface : NativeReviewSurface) (text : Rendering) (input : PublishInput)
    (routing : Option HumanReviewRoutingPlan) (built : Built) :
    Publishing (Except PublishResult Publication) := do
  if input.mode = .review_verdict && !isValidPublishVerdict input.verdict then
    return .error (failed
      ("review_verdict mode requires a final verdict of approve or request_changes, got \""
        ++ input.verdict ++ "\" — refusing to publish a COMMENT substitute (#1145)"))
  else if !nativeSurface.supported then
    let body := text.nativeBody routing built
    let result ← upsertStickyComment input.commentMarker body
    if result.ok then return .ok (({} : Publication).withSticky result body)
    else return .error (failed
      ("managed review record publication failed: " ++ result.error.getD "unknown error"))
  else
    let submitted ← submitNativeReview (nativeEvent input) (text.nativeBody routing built)
      (some (text.fallbackBody routing built)) input.headSha built.comments
    if submitted.ok then
      return .ok { nativeReviewId := submitted.reviewId, fallbackSubmission := submitted.fellBack }
    else if nativeEvent input = .APPROVE then
      return .error (failed ("native approval failed for #" ++ input.prNumber))
    else
      return .error (failed
        ("native review submission failed: " ++ submitted.error.getD "unknown error"))

def publishMode (nativeSurface : NativeReviewSurface) (text : Rendering) (input : PublishInput)
    (routing : Option HumanReviewRoutingPlan) (built : Built) :
    Publishing (Except PublishResult Publication) :=
  match input.mode with
  | .comment => publishComment text input routing built
  | .review_comment => publishReviewComment nativeSurface text input routing built
  | .review_verdict | .review_blockers => publishNative nativeSurface text input routing built

/-! ## Cleanup after the publication -/

/-- What proves that this run replaced the previous publication. -/
inductive ReplacementCheckpoint where
  | review (reviewId : String)
  | sticky (commentId updatedAt body : String)
  deriving DecidableEq, Repr

def replacementCheckpoint (p : Publication) : Option ReplacementCheckpoint :=
  match p.nativeReviewId with
  | some reviewId => some (.review reviewId)
  | none =>
    match p.stickyCheckpointUsable, p.stickyCommentId, p.stickyUpdatedAt, p.stickyBody with
    | true, some commentId, some updatedAt, some body => some (.sticky commentId updatedAt body)
    | _, _, _, _ => none

/-- `BigInt(s)` of a decimal string; what else `BigInt` parses is no review id. -/
def bigInt (s : String) : Option Int :=
  match (trim s).toList with
  | [] => some 0
  | '-' :: cs => (digits cs).map fun n => -(n : Int)
  | '+' :: cs => (digits cs).map Nat.cast
  | cs => (digits cs).map Nat.cast
where
  digits (cs : List Char) : Option Nat :=
    if cs ≠ [] && cs.all isDigit then
      some (cs.foldl (fun n c => 10 * n + (c.toNat - '0'.toNat)) 0)
    else none

def reviewInstant (r : PublishReviewRef) : String :=
  match r.submitted_at with
  | some t => if t ≠ "" then t else r.updated_at.getD ""
  | none => r.updated_at.getD ""

/-- `Date.parse`, the empty string being no instant. -/
def Rendering.stamp (text : Rendering) (instant : String) : Option Int :=
  if instant = "" then none else text.dateParse instant

/-- The managed reviews proven older than the replacement. -/
def olderManaged (text : Rendering) (marker : String) (previous : List PublishReviewRef) :
    ReplacementCheckpoint → Except Exn (List PublishReviewRef)
  | .review reviewId =>
    match bigInt reviewId with
    | none => .error (error ("Cannot convert " ++ reviewId ++ " to a BigInt"))
    | some newestId => .ok (previous.filter fun r =>
        isManagedBody r.body marker && (bigInt r.id).any (· < newestId))
  | .sticky _ updatedAt _ =>
    match text.dateParse updatedAt with
    | none => .ok []
    | some checkpoint => .ok (previous.filter fun r =>
        isManagedBody r.body marker && (text.stamp (reviewInstant r)).any (· < checkpoint))

/-- The replacement is still the newest managed publication, and the head has not moved. -/
def stillCurrent (text : Rendering) (input : PublishInput) (owner : TrustedOwnerIdentity)
    (checkpoint : ReplacementCheckpoint) : Side Bool := do
  let head ← side .getHeadSha
  if head ≠ some input.headSha then return false
  else match checkpoint with
  | .review reviewId =>
    let latest ← side .listReviews
    match latest.find? (fun r => r.id == reviewId) with
    | none => return false
    | some replacement =>
      if !isManagedBody replacement.body input.commentMarker then return false
      else
        let ids := (latest.filter fun r => isManagedBody r.body input.commentMarker).filterMap
          fun r => bigInt r.id
        match bigInt reviewId with
        | none => throw (error ("Cannot convert " ++ reviewId ++ " to a BigInt"))
        | some id => return ids.contains id && ids.all (· ≤ id)
  | .sticky commentId updatedAt body =>
    match text.dateParse updatedAt with
    | none => return false
    | some checkpointMs =>
      let latest ← side .listReviews
      let comments ← side .listIssueComments
      match comments.find? (fun c => c.id == commentId) with
      | none => return false
      | some sticky =>
        return isManagedBody sticky.body input.commentMarker
          && ownerMatchesIdentity sticky.user owner
          && sticky.body = some body
          && text.dateParse (sticky.updated_at.getD "") = some checkpointMs
          && latest.all fun r => !isManagedBody r.body input.commentMarker
            || (text.stamp (reviewInstant r)).any (· < checkpointMs)

/-- Retires what the replacement makes obsolete. -/
def cleanupPrevious (api : PublishPlatformApi) (text : Rendering) (input : PublishInput)
    (previousReviews : List PublishReviewRef) (published : Publication)
    (checkpoint : ReplacementCheckpoint) : Side Unit := do
  let verifiedHead ← side .getHeadSha
  if verifiedHead ≠ some input.headSha then return
  let resolved ← trustedOwnerForRun api
  match resolved.owner with
  | none => return
  | some owner =>
    let previous := previousReviews.filter fun r => ownerMatchesIdentity r.user owner
    match olderManaged text input.commentMarker previous checkpoint with
    | .error e => throw e
    | .ok older =>
      let current := stillCurrent text input owner checkpoint
      if older.length > 100 then return
      if !(← current) then return
      if completeCoverage input && !published.fallbackSubmission then
        retireManagedInlineComments older input.commentMarker owner current
        if ← current then
          let managedIds ← cleanupManagedReviews api input.commentMarker older
          if api.platform = .github then resolveSupersededThreads managedIds
      else
        let excluded := match checkpoint with
          | .review reviewId => [reviewId]
          | .sticky _ _ _ => []
        hideSupersededManagedReviews api older input.commentMarker owner excluded current

/-- The cleanup never fails a publication. -/
def cleanup (api : PublishPlatformApi) (text : Rendering) (input : PublishInput)
    (previousReviews : List PublishReviewRef) (published : Publication) : Side Unit :=
  match replacementCheckpoint published with
  | none => return
  | some checkpoint =>
    tryCatch (cleanupPrevious api text input previousReviews published checkpoint)
      (fun _ => return)

/-! ## The whole publication -/

/-- The additive reviewer request of a `request` plan, and the plan with its outcome. -/
def requestReviewers (input : PublishInput) : Side (Option HumanReviewRoutingPlan) :=
  match input.reviewRouting with
  | none => return none
  | some plan =>
    if plan.status ≠ .request then return some plan
    else if plan.mode = "request" && input.isForkPr = some false then do
      let ok ← side (.requestReviewers plan.users plan.teams)
      return some { plan with status := if ok then .requested else .request_failed }
    else return some { plan with status := .invalid }

/-- The inline comments of the run, built on what the feedback read gives. -/
def buildComments (nativeSurface : NativeReviewSurface) (text : Rendering) (input : PublishInput) :
    Side Built :=
  let hasFindings := match input.findings with
    | .undefined | .null => false
    | _ => true
  if nativeSurface.supported && input.mode ≠ .comment && input.inlineFindings && hasFindings then do
    return text.buildInlineComments (← text.readFeedbackState)
  else return ⟨[], []⟩

def cleanupRequested (input : PublishInput) : Except Exn Bool :=
  if input.mode = .comment then .ok false
  else resolveCleanupFlag input.cleanupPreviousNativeReviews input.mode.name

/-- The reviews before this publication, if a cleanup is to follow. -/
def snapshotReviews (cleanupEnabled : Bool) : Side (List PublishReviewRef) :=
  if cleanupEnabled then tryCatch (side .listReviews) (fun _ => return [])
  else return []

/-- The re-review label goes last; a failure is swallowed. -/
def removeRerunLabel (input : PublishInput) : Side Unit :=
  match input.rerunLabel with
  | none => return
  | some label =>
    if label = "" then return
    else tryCatch (do let _ ← side (.removeLabel label)) (fun _ => return)

/-- `publishReview` past its head check. -/
def publishAtHead (api : PublishPlatformApi) (text : Rendering) (input : PublishInput) :
    Publishing PublishResult := do
  let nativeSurface := api.nativeReviewSurface.getD ⟨true, none⟩
  let routing ← (requestReviewers input).publishing
  let built ← (buildComments nativeSurface text input).publishing
  let requested ← Async.lift (cleanupRequested input)
  let cleanupEnabled := requested && nativeSurface.supported
  let previousReviews ← (snapshotReviews cleanupEnabled).publishing
  let outcome ← tryCatch (publishMode nativeSurface text input routing built)
    (fun e => return .error (failed e.message))
  match outcome with
  | .error result => return result
  | .ok published =>
    if cleanupEnabled then (cleanup api text input previousReviews published).publishing
    (removeRerunLabel input).publishing
    return ⟨.published, none⟩

/-- The wording of an unknown head. -/
def headUnavailable (api : PublishPlatformApi) : String :=
  match api.currentHeadUnavailableReason.filter (· ≠ "") with
  | none => "Could not re-fetch the current head of the pull request; " ++
      "refusing to publish a potentially stale review."
  | some reason => "Could not determine the current head of the pull request: " ++ reason ++
      ". Refusing to publish a potentially stale review."

def publishReview (api : PublishPlatformApi) (text : Rendering) (input : PublishInput) :
    Publishing PublishResult :=
  if input.prNumber = "" then
    return failed ("publish_" ++ input.mode.name ++
      " requires a pull_request event or explicit pr_number")
  else do
    let currentHead ← (side .getHeadSha).publishing
    if currentHead.getD "" = "" then return failed (headUnavailable api)
    else if currentHead ≠ some input.headSha then return ⟨.superseded, none⟩
    else publishAtHead api text input

end PrReviewer.Publish
