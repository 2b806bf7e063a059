import PrReviewer.Context.Fence

/-!
# The scope of a re-review

`src/context/rereview-scope.ts`: what changed since the last reviewed head, as three probes of the checkout tell it
(`computeReReviewDelta`), and the section of the corpus that says so (`buildReReviewScopeMd`).

What a probe printed is given (`GitOutcome`).
-/

namespace PrReviewer.Context

open Js
open Enforcement (fenceDelimiterFor backticks)

def MAX_DELTA_FILES : Nat := 200

def MAX_DELTA_COMMITS : Nat := 20

def MAX_SECTION_BYTES : Nat := 4096

structure DeltaCommit where
  sha : String
  subject : String
  deriving DecidableEq

structure ReReviewScopeDelta where
  priorHeadSha : String
  headSha : String
  enumerated : Bool
  treeUnchanged : Bool
  commits : List DeltaCommit
  commitsTruncated : Bool
  files : List String
  filesTruncated : Bool

def emptyDelta (priorHeadSha headSha : String) : ReReviewScopeDelta :=
  { priorHeadSha, headSha, enumerated := false, treeUnchanged := false, commits := [], commitsTruncated := false
    files := [], filesTruncated := false }

/-- `truncated`: the capture hit its cap, and the output is a beginning. -/
structure GitOutcome where
  ok : Bool
  truncated : Bool
  stdout : String

/-- The outcomes of `cat-file -e`, `diff --name-only -z` and `log`. -/
structure Probes where
  present : GitOutcome
  files : GitOutcome
  commits : GitOutcome

/-- `SHA_RE`, on text in lower case. -/
def isSha (s : String) : Bool := isRun isLowerHex 7 64 s

def normalizeSha (s : String) : String := String.ofList ((trim s).toList.map Char.toLower)

/-! ## The delta -/

/-- The names that the probe printed, without the last one of a capped capture. -/
def rawFiles (outcome : GitOutcome) : List String :=
  let rawNames := (outcome.stdout.toList.splitOn (Char.ofNat 0)).map String.ofList
  (if outcome.truncated then rawNames.dropLast else rawNames).filter (· ≠ "")

/-- The records of the log, each without the line feed in front. -/
def rawRecords (outcome : GitOutcome) : List (List Char) :=
  (outcome.stdout.toList.splitOn (Char.ofNat 0x1E)).map fun rawRecord =>
    match rawRecord with
    | '\n' :: record => record
    | record => record

/-- The commit that a record names. -/
def commitOf (record : List Char) : Option DeltaCommit :=
  match record.findIdx? (· = Char.ofNat 0x1F) with
  | some separator =>
    let sha := normalizeSha (String.ofList (record.take separator))
    if separator = 0 ∨ isSha sha = false then none else some ⟨sha, String.ofList (record.drop (separator + 1))⟩
  | none => none

/-- A commit is listed with its subject. -/
def isListable (commit : DeltaCommit) : Bool := commit.subject ≠ "" && !hasControlChar commit.subject

/-- The loop over the records: the commits, and whether there was one more. -/
def readCommits : List (List Char) → List DeltaCommit → List DeltaCommit × Bool
  | [], commits => (commits, false)
  | record :: records, commits =>
    match commitOf record with
    | some commit =>
      if isListable commit then
        if MAX_DELTA_COMMITS ≤ commits.length then (commits, true) else readCommits records (commits ++ [commit])
      else readCommits records commits
    | none => readCommits records commits

def computeReReviewDelta (probes : Probes) (priorHeadSha headSha : String) : ReReviewScopeDelta :=
  let prior := normalizeSha priorHeadSha
  let head := normalizeSha headSha
  if isSha prior = false ∨ isSha head = false ∨ prior = head then emptyDelta prior head
  else if probes.present.ok = false then emptyDelta prior head
  else if probes.files.ok = false then emptyDelta prior head
  else
    let files := ((rawFiles probes.files).filter fun name => !hasControlChar name).take MAX_DELTA_FILES
    if probes.commits.ok = false then emptyDelta prior head
    else
      let listed := readCommits (rawRecords probes.commits) []
      { priorHeadSha := prior
        headSha := head
        enumerated := true
        treeUnchanged := (rawFiles probes.files).isEmpty
        commits := listed.1
        commitsTruncated := listed.2
        files
        filesTruncated := probes.files.truncated || decide (files.length < (rawFiles probes.files).length) }

/-! ## The section -/

/-- Entries in a fence, as lines of the section. -/
def fencedList (entries : List String) : List String :=
  let payload := "\n".intercalate entries ++ "\n"
  [fenceDelimiterFor payload ++ "\n", payload, fenceDelimiterFor payload ++ "\n"]

/-- Text as code. -/
def codeSpan (s : String) : String := backticks 1 ++ s ++ backticks 1

def scopeHead (basePart prior head : String) : List String :=
  ["# Re-Review Scope", "", "This is a re-review. Two scopes are tracked separately:", "",
    "- **Current PR scope (authoritative):** " ++ basePart ++ " → head " ++ codeSpan head
      ++ ". The final verdict and summary must describe this full range — the pull request as it would merge at the current head.",
    "- **Prior review:** the previous managed review covered head " ++ codeSpan prior ++ ". The delta " ++ codeSpan prior
      ++ " → " ++ codeSpan head
      ++ " identifies the newly changed portion since that review. The delta only prioritizes inspection; it never redefines the change being approved or rejected.",
    "", "Delta since the previous reviewed head:", ""]

def notEnumeratedLine : String :=
  "- The delta could not be enumerated in this checkout (the prior head commit may no longer be present); treat the full current PR as the scope of inspection."

def treeUnchangedLine : String :=
  "- No file-level changes since the previous reviewed head (rebase-only or semantically unchanged push)."

def omittedLine : String :=
  "- (The delta listing is omitted for size; the full current PR remains the authoritative scope.)"

def truncatedLine : String :=
  "- (The delta listing above is truncated; the full current PR remains the authoritative scope.)"

/-- A list of the delta, of which `shown` entries are shown: its title and its fence. -/
def deltaList (title : String) (entries : List String) (more : Bool) : List String :=
  if entries = [] then []
  else
    (if more then "- " ++ title ++ " (first " ++ toString entries.length ++ " of more):"
      else "- " ++ title ++ " (" ++ toString entries.length ++ "):") :: "" :: fencedList entries

def commitEntry (commit : DeltaCommit) : String := commit.sha ++ " " ++ commit.subject

def deltaLines (resolved : Option ReReviewScopeDelta) (listLimit : Nat) : List String :=
  match resolved with
  | none => [notEnumeratedLine]
  | some delta =>
    if delta.treeUnchanged then [treeUnchangedLine]
    else if listLimit = 0 then [omittedLine]
    else
      let commits := delta.commits.take listLimit
      let commitsShrunk := decide (commits.length < delta.commits.length)
      let files := delta.files.take listLimit
      let filesShrunk := decide (files.length < delta.files.length)
      deltaList "Commits" (commits.map commitEntry) (commitsShrunk || delta.commitsTruncated)
        ++ deltaList "Changed files" files (filesShrunk || delta.filesTruncated)
        ++ if commitsShrunk || filesShrunk || delta.commitsTruncated || delta.filesTruncated then [truncatedLine] else []

def scopeRules : List String :=
  ["", "Rules for this re-review:", "",
    "- Version and dependency evidence is anchored to the full current PR range (base→head); the delta only identifies which portion is newly introduced since the previous review.",
    "- Do not manufacture findings for portions unchanged since the previous reviewed head merely because the branch moved.",
    "- Prior review findings are retained, resolved, or superseded against current-head evidence — restate a prior finding only when the current head still warrants it."]

/-- `frame(listLimit)`. -/
def scopeFrame (basePart prior head : String) (resolved : Option ReReviewScopeDelta) (listLimit : Nat) : String :=
  "\n".intercalate (scopeHead basePart prior head ++ deltaLines resolved listLimit ++ scopeRules) ++ "\n"

/-- The frames with smaller and smaller lists, until one fits. -/
def shrinkFrame (frame : Nat → String) (listLimit : Nat) : String :=
  if (frame listLimit).utf8ByteSize ≤ MAX_SECTION_BYTES then frame listLimit
  else if 0 < listLimit then shrinkFrame frame (listLimit / 2)
  else frame listLimit
termination_by listLimit

def buildReReviewScopeMd (delta : Option ReReviewScopeDelta) (priorHeadSha headSha baseSha : String) : String :=
  let prior := normalizeSha priorHeadSha
  let head := normalizeSha headSha
  if isSha prior = false ∨ isSha head = false ∨ prior = head then ""
  else
    let base := normalizeSha baseSha
    let basePart := if isSha base then "base " ++ codeSpan base else "the configured base"
    let resolved := delta.filter fun delta => delta.enumerated && delta.priorHeadSha == prior && delta.headSha == head
    shrinkFrame (scopeFrame basePart prior head resolved) MAX_DELTA_FILES

end PrReviewer.Context
