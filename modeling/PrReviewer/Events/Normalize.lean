import PrReviewer.Js.Text
import PrReviewer.Queue.Types

/-!
# Forge events

`src/events/normalize.ts`: how a webhook payload and a polled PR object become a `CanonicalForgeEvent`.

- A payload is parsed JSON, so that reading a field of it does not throw.
- `toLowerCase` is a parameter: no result here depends on how letters are mapped.
- The PR of a payload is that of `resolvePr`; a bare PR object and an envelope around it give the same one but for the
  `origin` (`resolvePr_bare`, `resolvePr_envelope`).
-/

open Js

namespace PrReviewer.Events

open Queue (ReviewTrigger JobPlatform)

/-! ## Events -/

inductive ForgeEventKind where
  | prOpened
  | prReopened
  | synchronize
  | readyForReview
  | rereviewLabel
  | prClosed
  | prMerged
  | checkUpdate
  | installationChange
  | visibilityChange
  | reconciliationPoll
  | followUp
  | unknown
  deriving DecidableEq, Repr

def ForgeEventKind.name : ForgeEventKind → String
  | .prOpened => "pr_opened"
  | .prReopened => "pr_reopened"
  | .synchronize => "synchronize"
  | .readyForReview => "ready_for_review"
  | .rereviewLabel => "rereview_label"
  | .prClosed => "pr_closed"
  | .prMerged => "pr_merged"
  | .checkUpdate => "check_update"
  | .installationChange => "installation_change"
  | .visibilityChange => "visibility_change"
  | .reconciliationPoll => "reconciliation_poll"
  | .followUp => "follow_up"
  | .unknown => "unknown"

/-- One normalized observation of a forge; a field that the payload does not have is `""`, `0` or `false`. -/
structure CanonicalForgeEvent where
  platform : JobPlatform
  source : ReviewTrigger
  kind : ForgeEventKind
  installationId : String
  repoFullName : String
  prNumber : Number
  prId : Number
  headSha : String
  baseSha : String
  draft : Bool
  fork : Bool
  labelName : String
  actor : String
  eventReference : String

/-! ## Fields -/

def isPlainObject : Value → Bool
  | .object _ => true
  | _ => false

def asObject (value : Value) : Value := if isPlainObject value then value else .object []

def asString (value : Value) : String := value.string?.getD ""

def isPrNumber (x : Number) : Bool := Number.isInteger x && decide (0 < x)

/-- The number of a PR or an issue, if it has one. -/
def prNumber? (value : Value) : Option Number := value.number?.filter isPrNumber

/-- An id, or the sentinel 0. -/
def asId (value : Value) : Number :=
  (value.number?.filter fun x => Number.isSafeInteger x && decide (0 < x)).getD 0

/-- `Boolean(value)`. -/
def truthy : Value → Bool
  | .undefined => false
  | .null => false
  | .bool b => b
  | .number x => !x.isNaN && !(x == 0)
  | .count n => n ≠ 0
  | .string s => s ≠ ""
  | .array _ => true
  | .object _ => true

/-- `INSTALLATION_ID_PATTERN`. -/
def isInstallationId (s : String) : Bool := isPositiveDecimal 31 s

/-- `COMMENT_ID_PATTERN`. -/
def isCommentId (s : String) : Bool := isPositiveDecimal 18 s

/-- The text of a string or a safe integer, trimmed, if it has the form; else `""`. -/
def normalizeId (pattern : String → Bool) (value : Value) : String :=
  let normalized :=
    match value with
    | .number x => if Number.isSafeInteger x then trim (numberToString x) else ""
    | .string s => trim s
    | _ => ""
  if pattern normalized then normalized else ""

def normalizeInstallationId (value : Value) : String := normalizeId isInstallationId value

def normalizeCommentId (value : Value) : String := normalizeId isCommentId value

def sanitizeDisplay (raw : String) : String :=
  let trimmed := trim raw
  if trimmed = "" ∨ strLength trimmed > 128 ∨ hasControlChar trimmed then "" else trimmed

/-- `a || b` on strings. -/
def orElse (a b : String) : String := if a ≠ "" then a else b

section

variable (toLowerCase : String → String)

def normalizeSha (raw : String) : String :=
  let normalized := toLowerCase (trim raw)
  if isRun isLowerHex 7 64 normalized then normalized else ""

/-- An owner and a name that are not empty, with one `/` between them. -/
def normalizeRepoFullName (fullName : String) : String :=
  let trimmed := toLowerCase (trim fullName)
  match trimmed.toList.splitOn '/' with
  | [owner, name] => if owner = [] ∨ name = [] then "" else trimmed
  | _ => ""

/-! ## The PR of a payload -/

inductive PrOrigin where
  | envelope
  | issue
  | checkList
  | bare
  deriving DecidableEq, Repr

structure PrExtract where
  origin : PrOrigin
  prNumber : Number
  prId : Number
  headSha : String
  baseSha : String
  draft : Bool
  fork : Bool
  merged : Bool
  baseRepoRaw : String
  userLogin : String

/-- The fields of the PR object; an object without a number takes the issue's. -/
def extractPr (origin : PrOrigin) (issueNumber : Number) (pr : Value) : PrExtract :=
  let head := asObject (pr.get "head")
  let base := asObject (pr.get "base")
  let headRepo := asString ((asObject (head.get "repo")).get "full_name")
  let baseRepo := asString ((asObject (base.get "repo")).get "full_name")
  { origin
    prNumber := (prNumber? (pr.get "number")).getD issueNumber
    prId := asId (pr.get "id")
    headSha :=
      orElse (normalizeSha toLowerCase (asString (head.get "sha")))
        (normalizeSha toLowerCase (asString (pr.get "head_sha")))
    baseSha :=
      orElse (normalizeSha toLowerCase (asString (base.get "sha")))
        (normalizeSha toLowerCase (asString (pr.get "base_sha")))
    draft := truthy (pr.get "draft")
    fork := decide (headRepo = "" ∨ headRepo ≠ baseRepo)
    merged :=
      decide ((pr.get "merged").bool? = some true ∨ asString (pr.get "merged_at") ≠ "")
    baseRepoRaw := baseRepo
    userLogin := asString ((asObject (pr.get "user")).get "login") }

def resolvePr (raw : Value) : Option PrExtract :=
  let issue := raw.get "issue"
  if isPlainObject (raw.get "pull_request") then
    some (extractPr toLowerCase .envelope 0 (raw.get "pull_request"))
  else if isPlainObject issue && isPlainObject (issue.get "pull_request") then
    some (extractPr toLowerCase .issue ((prNumber? (issue.get "number")).getD 0) (issue.get "pull_request"))
  else
    match raw.get "pull_requests" with
    | .array entries => (entries.find? isPlainObject).map (extractPr toLowerCase .checkList 0)
    | _ =>
      if (prNumber? (raw.get "number")).isSome then some (extractPr toLowerCase .bare 0 raw) else none

/-! ## Webhook events -/

def labelNameOf (label : Value) : String :=
  match label with
  | .string s => s
  | _ => if isPlainObject label then asString (label.get "name") else ""

def installationIdOf (raw : Value) : String :=
  normalizeInstallationId ((asObject (raw.get "installation")).get "id")

def commentIdOf (raw : Value) : String := normalizeCommentId ((asObject (raw.get "comment")).get "id")

/-- The first well-formed name of a `repositories` list. -/
def repoFromList (raw : Value) : String :=
  match raw.get "repositories" with
  | .array entries =>
    ((entries.filter isPlainObject).map fun entry =>
      normalizeRepoFullName toLowerCase (asString (entry.get "full_name"))).find? (· ≠ "") |>.getD ""
  | _ => ""

def carriesCheckUpdateShape (name : String) (raw : Value) : Bool :=
  if !isPlainObject raw then false
  else if name = "check_run" then isPlainObject (raw.get "check_run")
  else if name = "check_suite" then isPlainObject (raw.get "check_suite")
  else if name = "status" then
    ["sha", "state", "context"].all fun key => trim (asString (raw.get key)) ≠ ""
  else false

def mapKind (name action : String) (pr : Option PrExtract) (rawLabelName rereviewLabel : String) (raw : Value) :
    ForgeEventKind :=
  if name = "pull_request" then
    match action with
    | "opened" => .prOpened
    | "reopen" => .prReopened
    | "synchronize" => .synchronize
    | "ready_for_review" => .readyForReview
    | "closed" => if pr.any (·.merged) then .prMerged else .prClosed
    | "labeled" => if rawLabelName = rereviewLabel then .rereviewLabel else .unknown
    | _ => .unknown
  else
    match name with
    | "check_run" | "check_suite" | "status" =>
      if carriesCheckUpdateShape name raw then .checkUpdate else .unknown
    | "installation" | "installation_repositories" => .installationChange
    | "public" => .visibilityChange
    | "issue_comment" | "comment" =>
      if (pr.any fun pr => pr.origin = .issue ∧ 0 < pr.prNumber) && action = "created" then .followUp else .unknown
    | _ => .unknown

/-- `PR_SCOPED_KINDS`. -/
def ForgeEventKind.prScoped : ForgeEventKind → Bool
  | .prOpened | .prReopened | .synchronize | .readyForReview | .rereviewLabel | .prClosed | .prMerged | .followUp =>
    true
  | _ => false

/-- The repository of a payload: its own, else that of its PR, else the first of its list. -/
def repoOf (raw : Value) (pr : Option PrExtract) (fromList : String) : String :=
  orElse (normalizeRepoFullName toLowerCase (asString ((asObject (raw.get "repository")).get "full_name")))
    (match pr with
    | some pr => normalizeRepoFullName toLowerCase pr.baseRepoRaw
    | none => fromList)

/-- `DEFAULT_REREVIEW_LABEL`. -/
def defaultRereviewLabel : String := "ai-review"

def loginOf (user : Value) : String := sanitizeDisplay (asString ((asObject user).get "login"))

def normalizeEvent (platform : JobPlatform) (raw : Value) (source : ReviewTrigger) (rereviewLabel : String) :
    Option CanonicalForgeEvent :=
  if !isPlainObject raw then none
  else
    let name := orElse (asString (raw.get "name")) (asString (raw.get "event"))
    let pr := resolvePr toLowerCase raw
    let rawLabelName := labelNameOf (raw.get "label")
    let repoFullName := repoOf toLowerCase raw pr (repoFromList toLowerCase raw)
    let kind :=
      mapKind name (asString (raw.get "action")) pr rawLabelName (orElse rereviewLabel defaultRereviewLabel) raw
    if repoFullName = "" then none
    else if kind.prScoped && pr.all (·.prNumber == 0) then none
    else
      let isCommentEvent := name = "issue_comment" ∨ name = "comment"
      let senderActor := loginOf (raw.get "sender")
      some
        { platform
          source
          kind
          installationId := installationIdOf raw
          repoFullName
          prNumber := (pr.map (·.prNumber)).getD 0
          prId := (pr.map (·.prId)).getD 0
          headSha := (pr.map (·.headSha)).getD ""
          baseSha := (pr.map (·.baseSha)).getD ""
          draft := (pr.map (·.draft)).getD false
          fork := (pr.map (·.fork)).getD true
          labelName := sanitizeDisplay rawLabelName
          actor :=
            if isCommentEvent then orElse (loginOf ((asObject (raw.get "comment")).get "user")) senderActor
            else orElse senderActor (sanitizeDisplay ((pr.map (·.userLogin)).getD ""))
          eventReference := if isCommentEvent then commentIdOf raw else "" }

/-- A polled PR object; `installationId` is the option of the poll. -/
def reconciliationPollEvent (platform : JobPlatform) (prPayloadRaw installationId : Value) :
    Option CanonicalForgeEvent :=
  if !isPlainObject prPayloadRaw then none
  else
    match resolvePr toLowerCase prPayloadRaw with
    | none => none
    | some pr =>
      let repoFullName := repoOf toLowerCase prPayloadRaw (some pr) ""
      if pr.prNumber == 0 then none
      else if repoFullName = "" then none
      else
        some
          { platform
            source := .poll
            kind := .reconciliationPoll
            installationId := normalizeInstallationId installationId
            repoFullName
            prNumber := pr.prNumber
            prId := pr.prId
            headSha := pr.headSha
            baseSha := pr.baseSha
            draft := pr.draft
            fork := pr.fork
            labelName := ""
            actor := orElse (loginOf (prPayloadRaw.get "user")) (loginOf (prPayloadRaw.get "sender"))
            eventReference := "" }

/-! ## Bare PR objects and their envelopes -/

variable {toLowerCase}

theorem resolvePr_bare {p : Value} {n : Number} (hnumber : prNumber? (p.get "number") = some n)
    (hpull : p.get "pull_request" = .undefined) (hissue : p.get "issue" = .undefined)
    (hlist : p.get "pull_requests" = .undefined) : resolvePr toLowerCase p = some (extractPr toLowerCase .bare 0 p) := by
  simp [resolvePr, hpull, hissue, hlist, hnumber, isPlainObject]

theorem resolvePr_envelope {envelope p : Value} (hp : isPlainObject p = true) (hpull : envelope.get "pull_request" = p) :
    resolvePr toLowerCase envelope = some (extractPr toLowerCase .envelope 0 p) := by
  simp [resolvePr, hpull, hp]

end

end PrReviewer.Events
