import PrReviewer.Publish.Platform

/-!
# Cleanup of previous managed native reviews (`publish/cleanup.ts`)

All of it is over `SideCall`: a cleanup dismisses, hides, retires and deletes, and cannot create a
review. Log lines are left out, and with them the counters that only they show.
-/

namespace PrReviewer.Publish

open Js

def side (c : SideCall) : Side c.Reply := Async.call c

/-- `for (const x of xs)` with a body that says whether to go on. -/
def forWhile {α : Type} (body : α → Side Bool) : List α → Side Unit
  | [] => return
  | x :: xs => do
    if ← body x then forWhile body xs

/-! ## The trusted owner -/

def resolvePublishTrustedOwner (api : PublishPlatformApi) : Side TrustedOwner :=
  if api.hasResolveTrustedOwner then
    tryCatch
      (do
        let resolution ← side .resolveTrustedOwner
        return ⟨resolution.identity, resolution.reason⟩)
      (fun _ => return ⟨none, "unavailable"⟩)
  else do
    let identity ← tryCatch
      (if api.hasAuthenticatedIdentity then side .authenticatedIdentity else return none)
      (fun _ => return none)
    match identity with
    | none => return ⟨none, "unavailable"⟩
    | some login =>
      if trim login = "" then return ⟨none, "unavailable"⟩
      else return ⟨some (.login login), "user-login"⟩

/-- `createRunTrustedOwnerResolver`: resolved at most once in a publication. -/
def trustedOwnerForRun (api : PublishPlatformApi) : Side TrustedOwner := do
  match ← get with
  | some known => return known
  | none =>
    let resolved ← resolvePublishTrustedOwner api
    set (some resolved)
    return resolved

/-! ## Which reviews are ours -/

/-- `metadata/markers.ts`. -/
def LEGACY_MANAGED_PREFIX : String := "<!-- ai-pr-reviewer"

def startsWith (s p : String) : Bool := p.toList.isPrefixOf s.toList

/-- A body is the action's own when it starts with the configured marker or the legacy prefix. -/
def isManagedBody (body : Option String) (marker : String) : Bool :=
  startsWith (body.getD "") marker || startsWith (body.getD "") LEGACY_MANAGED_PREFIX

def liveVerdict (state : String) : Bool := state = "APPROVED" || state = "CHANGES_REQUESTED"

structure ManagedReview where
  id : String
  nodeId : String
  state : String
  minimized : Bool
  deriving DecidableEq, Repr

def selectManagedReviews (reviews : List PublishReviewRef) (marker : String)
    (minimizedIds : List String) : List ManagedReview :=
  reviews.filterMap fun review =>
    let state := review.state.getD ""
    let isMinimized := minimizedIds.contains review.id
    if !isManagedBody review.body marker || review.id = "" || !liveVerdict state && isMinimized then
      none
    else some ⟨review.id, review.node_id.getD "", state, isMinimized⟩

/-! ## Inline comments -/

/-- One comment of the retirement loop; `false` stops it. -/
def retireComment (owner : TrustedOwnerIdentity) (managed : List PublishReviewRef)
    (foreignReviews : List String) (mayDelete : Side Bool) (comment : ManagedInlineCommentRef) :
    Side Bool :=
  if foreignReviews.contains comment.reviewId then return true
  else match managed.find? (fun r => r.id == comment.reviewId) with
  | none => return true
  | some review =>
    if !isDecimalId comment.id then return true
    else if comment.isReply || comment.hasReplies != some false || !hasUsableOwner comment.user then
      return true
    else tryCatch
      (do
        if !(← mayDelete) then return false
        -- replies may have come after the listing
        let fresh ← side (.listManagedInlineComments [review.id])
        if !fresh.supported || !fresh.complete then return false
        let current := fresh.comments.find? fun row => row.id == comment.id
        if fresh.comments.any (fun row => !ownerMatchesIdentity row.user owner)
            || current.any (fun row => row.hasReplies != some false || row.isReply) then
          return true
        if !(← mayDelete) then return false
        side (.retireInlineComment review.id comment.id))
      (fun _ => return false)

/-- The comments of the first 100, each once. -/
def distinctComments (comments : List ManagedInlineCommentRef) : List ManagedInlineCommentRef :=
  (comments.take 100).foldl
    (fun kept c => if kept.any (fun d => d.reviewId == c.reviewId && d.id == c.id) then kept
      else kept ++ [c]) []

def retireManagedInlineComments (reviews : List PublishReviewRef) (marker : String)
    (owner : TrustedOwnerIdentity) (mayDelete : Side Bool) : Side Unit := do
  let managed := reviews.filter fun r =>
    isManagedBody r.body marker && ownerMatchesIdentity r.user owner
  let ids := (managed.map (·.id)).filter isDecimalId
  if ids = [] then return
  let listed ← side (.listManagedInlineComments ids)
  if !listed.supported || !listed.complete then return
  let foreignReviews := (listed.comments.filter fun c =>
    !ids.contains c.reviewId || !ownerMatchesIdentity c.user owner).map (·.reviewId)
  forWhile (retireComment owner managed foreignReviews mayDelete)
    (distinctComments listed.comments)

/-! ## Whole reviews -/

def DISMISSAL_MESSAGE : String :=
  "Superseded by a newer automated review for this pull request."

/-- `"true"` or `"false"`; anything unknown is thrown. -/
def resolveCleanupFlag (raw mode : String) : Except Exn Bool :=
  let value := raw.toLower
  if value = "true" then .ok true
  else if value = "false" then .ok false
  else if value = "auto" || value = "" then
    .ok (mode = "review_comment" || mode = "review_verdict" || mode = "review_blockers")
  else .error (error
    "Invalid cleanup_previous_native_reviews value; expected auto, true, or false")

/-- Dismisses and minimizes the managed reviews of the snapshot, and gives their ids. -/
def cleanupManagedReviews (api : PublishPlatformApi) (marker : String)
    (snapshot : List PublishReviewRef) : Side (List String) := do
  let minimizedIds ← if api.platform = .github then side .minimizedReviewIds else return []
  let managed := selectManagedReviews snapshot marker minimizedIds
  forWhile
    (fun review => do
      if !isDecimalId review.id then return true
      if liveVerdict review.state then
        let _ ← side (.dismissReview review.id DISMISSAL_MESSAGE)
      if review.nodeId ≠ "" && !review.minimized then
        let _ ← side (.minimizeReview review.nodeId)
      return true)
    managed
  return managed.map (·.id)

def HIDEABLE_STATES : List String := ["COMMENTED", "APPROVED", "CHANGES_REQUESTED", "DISMISSED"]

/-- A deletion is attempted only for a review without a verdict whose `official` flag is known to be
`false`. -/
def deletionEligible (review : PublishReviewRef) : Bool :=
  (review.state = some "COMMENTED" || review.state = some "DISMISSED")
    && review.official = some false

/-- One review of the hiding loop; `false` stops it. -/
def hideReview (canMinimize canDelete : Bool) (minimized : List String) (mayHide : Side Bool)
    (review : PublishReviewRef) : Side Bool :=
  let nodeId := review.node_id.getD ""
  tryCatch
    (do
      if !(← mayHide) then return false
      if canDelete && !canMinimize && deletionEligible review then
        let listed ← tryCatch (side (.listManagedInlineComments [review.id]))
          (fun _ => return ⟨true, false, []⟩)
        if listed.supported && listed.complete && listed.comments.isEmpty then
          if !(← mayHide) then return false
          let deletion ← tryCatch (side (.deleteSupersededReview review.id))
            (fun e => return ⟨false, some e.message⟩)
          if deletion.ok then return true
      if liveVerdict (review.state.getD "") then
        let _ ← side (.dismissReview review.id DISMISSAL_MESSAGE)
      if canMinimize && !minimized.contains review.id && nodeId ≠ "" then
        let _ ← side (.minimizeReview nodeId)
      return true)
    (fun _ => return false)

/-- The ids already hidden, if the platform can hide at all. -/
def readMinimized (api : PublishPlatformApi) : Side (Option (List String)) :=
  if api.platform = .github then
    tryCatch (do return some (← side .minimizedReviewIds)) (fun _ => return none)
  else return none

def hideSupersededManagedReviews (api : PublishPlatformApi) (reviews : List PublishReviewRef)
    (marker : String) (owner : TrustedOwnerIdentity) (excluded : List String)
    (mayHide : Side Bool) : Side Unit := do
  let hidden ← readMinimized api
  let canMinimize := hidden.isSome
  let minimized := hidden.getD []
  let canDelete := api.supersededReviewDeletion.any (·.supported) && api.hasDeleteSupersededReview
  let eligible := reviews.filter fun review =>
    let state := review.state.getD ""
    isDecimalId review.id && !excluded.contains review.id && HIDEABLE_STATES.contains state
      && isManagedBody review.body marker && ownerMatchesIdentity review.user owner
      && (liveVerdict state
        || canMinimize && !minimized.contains review.id && review.node_id.getD "" ≠ ""
        || canDelete && !canMinimize)
  forWhile (hideReview canMinimize canDelete minimized mayHide) (eligible.take 100)

def resolveSupersededThreads (managedIds : List String) : Side Unit := do
  let ids := managedIds.filter isDecimalId
  if ids = [] then return
  let query ← side (.unresolvedSupersededThreads ids)
  if query.ok then
    forWhile (fun thread => do let _ ← side (.resolveThread thread); return true) query.threads

end PrReviewer.Publish
