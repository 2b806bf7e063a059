import PrReviewer.Js.Map
import PrReviewer.Enforcement.VerdictPolicy
import PrReviewer.Enforcement.Obligations

/-!
# Settlement of review threads and human change requests

Every listed thread or change request is settled against the disposition of the model. An open thread
comes back as a finding, which under `findings_severity_gated` can escalate the verdict; the settlement of
human change requests never touches it.

A list entry that the source skips (it is `null`, or its id is not a string) is `none`.
-/

open Js

namespace PrReviewer.Enforcement

/-! ## Text -/

/-- `s.includes(t)`. -/
def includes (s t : String) : Bool := s.toList.tails.any fun cs => t.toList.isPrefixOf cs

/-- `EVIDENCE_LOCATION_RE`: a path with an extension and a line, or the reference "line N". -/
def evidenceLocationRe : RegExp :=
  let lineRef : List RegExp :=
    [.literalIgnoreCase "line", .plus .space, .plus .digit]
  .alt
    (.concat
      [.alt .textStart (.char fun c => isSpace c || c.toNat == 0x60 || c == '('),
        .plus (.char fun c => RegExp.isWord c || c == '.' || c == '/' || c == '-'),
        .char (· == '.'),
        .plus (.char RegExp.isWord),
        .alt (.seq (.char (· == ':')) (.plus .digit)) (.concat (.plus .space :: lineRef))])
    (.concat (.wordBoundary :: lineRef))

def evidenceCitesCode (evidence path : Option String) : Bool :=
  let text := trim (evidence.getD "")
  if text == "" then false
  else if path.any fun p => p != "" && includes text p then true
  else evidenceLocationRe.test text

/-- `trimmed.split(/\s+/).join(" ")`: the words of the text with one blank between them. -/
def collapseSpace (s : String) : String :=
  " ".intercalate (((s.toList.splitOnP isSpace).filter (· ≠ [])).map String.ofList)

/-- Text of the model as one code span of at most `cap` code units. -/
def inlineCode (text : Option String) (cap : Nat) : String :=
  let body := collapseSpace (trim (text.getD ""))
  let bounded := if strLength body > cap then sliceTo (cap - 1) body ++ "…" else body
  let fence := backticks (longestBacktickRun bounded + 1)
  let atEdge (c : Option Char) : Bool := c.any (·.toNat == 0x60)
  let pad := if atEdge bounded.toList.head? || atEdge bounded.toList.getLast? then " " else ""
  fence ++ pad ++ bounded ++ pad ++ fence

/-- The first entry of every id, as the settlements look the dispositions up. -/
def givenBy (key : String) (entries : List Value) : Map String Value :=
  entries.foldl (fun given entry =>
    match (entry.get key).string? with
    | some id => if given.has id then given else given.set id entry
    | none => given) .empty

def stringOrNull : Option String → Value
  | some s => .string s
  | none => .null

/-! ## Review threads -/

structure EnforcementThread where
  threadId : String
  path : Option String := none
  line : Option Number := none
  severity : String := ""
  message : String := ""
  category : Option String := none

/-- `THREAD_DISPOSITIONS`. -/
def threadDispositions : List String := ["fixed", "open", "disputed", "withdrawn"]

/-- `WITHDRAWABLE_CATEGORIES`. -/
def withdrawableCategories : List String := ["verification", "question"]

def reemittedSeverity (raw : String) : Severity :=
  if raw = "blocker" then .blocker
  else if raw = "major" then .major
  else if raw = "info" then .info
  else .minor

structure SettledThread where
  threadId : String
  disposition : String
  evidence : Option String
  enforced : Option String

def SettledThread.record (t : SettledThread) : Value :=
  .object ([("thread_id", .string t.threadId), ("disposition", .string t.disposition),
    ("evidence", stringOrNull t.evidence)]
    ++ (t.enforced.map fun note => [("enforced", Value.string note)]).getD [])

/-- The disposition a thread ends with, and why it is not the given one. -/
def settleDisposition (thread : EnforcementThread) (disposition evidence : Option String) :
    String × Option String :=
  match disposition with
  | none => ("open", some "no disposition given")
  | some given =>
    if !threadDispositions.contains given then ("open", some "no disposition given")
    else if given == "fixed" && !evidenceCitesCode evidence thread.path then
      ("open", some "fixed without evidence citing current code")
    else if given == "withdrawn" then
      if !withdrawableCategories.contains (thread.category.getD "") then
        ("open", some "withdrawn without a verification/question finding")
      else if !thread.category.any isAlwaysNonBlockingCategory && isBlockingSeverity thread.severity then
        ("open", some "withdrawn on a blocking finding")
      else if trim (evidence.getD "") == "" then
        ("open", some "withdrawn without evidence from a reply")
      else (given, none)
    else (given, none)

def settleThread (given : Map String Value) (thread : EnforcementThread) : SettledThread :=
  let entry := (given.get? thread.threadId).getD (.object [])
  let evidence := (entry.get "evidence").string?
  let (disposition, note) := settleDisposition thread (entry.get "disposition").string? evidence
  ⟨thread.threadId, disposition, evidence, note⟩

def orElse (text fallback : String) : String := if text == "" then fallback else text

/-- An open thread as a finding, unless a finding already carries its id. -/
def reemit (knownThreadIds : List String) (thread : EnforcementThread) (settled : SettledThread) :
    Option ArtifactFinding :=
  if settled.disposition != "fixed" && settled.disposition != "withdrawn"
      && !knownThreadIds.contains thread.threadId then
    some
      { severity := reemittedSeverity thread.severity
        category := (thread.category.filter isAlwaysNonBlockingCategory).getD "other"
        file := thread.path
        line := thread.line
        message := orElse thread.message "Unresolved review thread" ++ " (review thread "
          ++ thread.threadId ++ ": " ++ settled.disposition ++ ")"
        threadId := some thread.threadId }
  else none

def threadLine (record : SettledThread) : String :=
  let suffix := (record.enforced.map (" — " ++ ·)).getD ""
  "- " ++ backticks 1 ++ record.threadId ++ backticks 1 ++ ": " ++ record.disposition ++ suffix

/-- A re-emitted blocker escalates an approve under `findings_severity_gated`. -/
def escalateThreads (a : ReviewArtifact) (reemitted : List ArtifactFinding) (verdictPolicy : String) :
    ReviewArtifact :=
  let blockers := reemitted.filter fun finding =>
    finding.severity == .blocker && !isAlwaysNonBlockingCategory finding.category
  if verdictPolicy == "findings_severity_gated" && blockers.length > 0
      && a.verdict != .requestChanges then
    markRelaxationNotesSuperseded
      { a.append ("\n\n_Verdict escalated from unresolved review threads "
          ++ "(verdict_policy=findings_severity_gated): " ++ toString blockers.length
          ++ " blocker thread(s) still open; model verdict was '" ++ a.verdict.text ++ "'._") with
        verdict := .requestChanges
        verdictSource := some .findings }
  else a

def applyReviewThreadEnforcement (a : ReviewArtifact)
    (threads : Option (List (Option EnforcementThread))) (verdictPolicy : String) :
    ReviewArtifact × EnforcementOutcome :=
  let given := givenBy "thread_id" (a.threadDispositions.getD [])
  let knownThreadIds := a.openFindings.filterMap (·.threadId)
  let listed := (threads.getD []).reduceOption
  let settled := listed.map (settleThread given)
  let reemitted := listed.filterMap fun thread =>
    reemit knownThreadIds thread (settleThread given thread)
  let downgraded := settled.countP (·.enforced.isSome)
  let settledWithdrawn := settled.countP (·.disposition == "withdrawn")
  if settled.length = 0 then (a, .skipped)
  else
    let recorded :=
      { a with
        threadDispositions := some (settled.map SettledThread.record)
        findings := some (a.openFindings ++ reemitted) }
    if downgraded = 0 ∧ reemitted.length = 0 ∧ settledWithdrawn = 0 then (recorded, .skipped)
    else
      let lines := ["", "", "## Unresolved Review Threads", ""] ++ settled.map threadLine
      (escalateThreads (recorded.append ("\n".intercalate lines)) reemitted verdictPolicy,
        ⟨true, "review threads: " ++ toString downgraded ++ " disposition(s) downgraded, "
          ++ toString reemitted.length ++ " finding(s) re-emitted"
          ++ if settledWithdrawn > 0 then ", " ++ toString settledWithdrawn ++ " withdrawn" else ""⟩)

/-! ## Human change requests -/

inductive HeadMoved where
  | moved
  | unchanged
  | unknown
  deriving DecidableEq, Repr

structure EnforcementHumanReview where
  reviewId : String
  login : String := ""
  commitId : Option String := none
  headMoved : HeadMoved := .unknown

/-- `HUMAN_REVIEW_DISPOSITIONS`. -/
def humanReviewDispositions : List String := ["addressed", "not_addressed"]

/-- The disposition and the evidence a change request ends with. -/
def settleHumanReview (given : Map String Value) (reviewId : String) : String × Option String :=
  let entry := (given.get? reviewId).getD (.object [])
  let evidence := (entry.get "evidence").string?
  let disposition :=
    match (entry.get "disposition").string? with
    | none => "not_addressed"
    | some stated =>
      if !humanReviewDispositions.contains stated then "not_addressed"
      else if stated == "addressed" && !evidenceCitesCode evidence none then "not_addressed"
      else stated
  (disposition, evidence)

def humanReviewLine (review : EnforcementHumanReview) (disposition : String)
    (evidence : Option String) : String :=
  let commit := review.commitId.getD ""
  let whereAt := (if commit == "" then "unknown commit" else sliceTo 7 commit)
    ++ match review.headMoved with
      | .moved => ", head moved since"
      | .unchanged => ", head unchanged since"
      | .unknown => ""
  let who := "@" ++ orElse review.login "unknown"
  if disposition == "addressed" then
    "- " ++ who ++ "'s change request (" ++ whereAt ++ ") judged addressed at this head: "
      ++ inlineCode evidence 300
  else
    "- " ++ who ++ "'s change request (" ++ whereAt
      ++ ") is not shown addressed at this head; it needs the reviewer's own re-review."

def applyHumanReviewEnforcement (a : ReviewArtifact)
    (reviews : Option (List (Option EnforcementHumanReview))) : ReviewArtifact × EnforcementOutcome :=
  let byId : Map String EnforcementHumanReview :=
    (reviews.getD []).reduceOption.foldl (fun byId review =>
      if byId.has review.reviewId then byId else byId.set review.reviewId review) .empty
  if byId.size = 0 then (a, .skipped)
  else
    let given := givenBy "review_id" (a.humanReviewDispositions.getD [])
    let settled := byId.entries.map fun (id, review) => (id, review, settleHumanReview given id)
    let lines := ["", "", "## Outstanding Human Change Requests", ""]
      ++ settled.map fun (_, review, disposition, evidence) =>
        humanReviewLine review disposition evidence
    ({ a.append ("\n".intercalate lines) with
        humanReviewDispositions := some (settled.map fun (id, _, disposition, evidence) =>
          .object [("review_id", .string id), ("disposition", .string disposition),
            ("evidence", stringOrNull evidence)]) },
      .skipped)

end PrReviewer.Enforcement
