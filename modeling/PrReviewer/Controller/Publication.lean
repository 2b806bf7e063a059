import PrReviewer.Controller.RunLifecycle
import PrReviewer.Events.Normalize

/-!
# The durable publisher

`createDurablePublisher` of `src/controller/publication.ts` and the gate that it passes
(`src/ingress/dispatch.ts`, `src/jobs/staleness.ts`).

- `publish` stores the payload and the usage of a run in one batch, reads the head, passes the gate, writes to the
  forge and stores that it has.
- `JSON.stringify`, the check for content that looks like a secret and `toLowerCase` are parameters.
-/

open Js

namespace PrReviewer.Controller.Daemon

open Events (isPlainObject)
open Queue (JobRecord ReviewJob isExpired)
open State

/-! ## The artifact of an attempt -/

def usageRecordFrom (entry : Value) (runId : String) (index : Nat) (nowMs : Number) : Option Value := do
  let route ← (entry.get "route").string?.filter (· ≠ "")
  let role ← usageRole? (entry.get "role")
  let requestCount ← (safeCount? (entry.get "requestCount")).filter (1 ≤ ·)
  let inputTokens ← safeCount? (entry.get "inputTokens")
  let cacheReadTokens ← safeCount? (entry.get "cacheReadTokens")
  let cacheWriteTokens ← safeCount? (entry.get "cacheWriteTokens")
  let outputTokens ← safeCount? (entry.get "outputTokens")
  let costMicros ← safeCount? (entry.get "costMicros")
  let costProvenance ← costProvenance? (entry.get "costProvenance")
  if costProvenance = .unknown ∧ costMicros ≠ 0 then none
  return .object [
    ("usageId", .string (runId ++ ":" ++ toString index)), ("runId", .string runId), ("route", .string route),
    ("role", .string role.name), ("requestCount", .count requestCount), ("inputTokens", .count inputTokens),
    ("cacheReadTokens", .count cacheReadTokens), ("cacheWriteTokens", .count cacheWriteTokens),
    ("outputTokens", .count outputTokens), ("costMicros", .count costMicros),
    ("costProvenance", .string costProvenance.name), ("recordedAtMs", .number nowMs)]

/-- The usage entries of an artifact; a malformed one refuses them all. -/
def usageRecordsFrom (parsed : Value) (runId : String) (nowMs : Number) : Option (List Value) :=
  match parsed.get "usage" with
  | .undefined => some []
  | .array rawUsage => rawUsage.zipIdx.mapM fun (entry, index) =>
      if isPlainObject entry then usageRecordFrom entry runId index nowMs else none
  | _ => none

section

variable (stringify : Value → String) (secretShaped : String → Bool) (toLowerCase : String → String)

/-- `readReviewArtifact` behind the file: the canonical text and the usage entries. -/
def canonicalArtifact (parsed : Value) (runId : String) (nowMs : Number) : Option (String × List Value) :=
  if !isPlainObject parsed then none
  else
    let canonical := stringify parsed
    if publicationPayloadMaxChars < strLength canonical then none
    else if secretShaped canonical then none
    else (usageRecordsFrom parsed runId nowMs).map fun usage => (canonical, usage)

def readPublicationArtifact (jobId : String) (attempt : Nat) (resultHeadSha : String) (nowMs : Number) :
    Program (Option (String × List Value)) := do
  match ← ask (.readExecutionEnvelope jobId attempt) with
  | none => return none
  | some result =>
    if result.runId ≠ executionRunId jobId attempt ∨ result.jobId ≠ jobId then return none
    else if result.status ≠ .completed then return none
    else if result.resultHeadSha ≠ resultHeadSha then return none
    else
      match ← ask (.readReviewArtifact result.resultArtifactPath) with
      | none => return none
      | some parsed => return canonicalArtifact stringify secretShaped parsed result.runId nowMs

/-! ## The gate -/

def normalizeSha (sha : String) : String := toLowerCase (trim sha)

def isResultStale (resultHeadSha currentHeadSha : String) : Bool :=
  let result := normalizeSha toLowerCase resultHeadSha
  let current := normalizeSha toLowerCase currentHeadSha
  if !isSha result || !isSha current then true else result ≠ current

def resultMatchesJob (job : ReviewJob) (resultHeadSha currentHeadSha : String) : Bool :=
  if isResultStale toLowerCase resultHeadSha currentHeadSha then false
  else normalizeSha toLowerCase resultHeadSha = normalizeSha toLowerCase job.headSha

inductive PublishGate where
  | published
  | stale
  | expired
  deriving DecidableEq

def gateJobPublication (job : ReviewJob) (resultHeadSha : String) (fetchCurrentHeadSha : Program (Option String))
    (publish : Program Unit) (nowMs : Number) : Program PublishGate := do
  if isExpired job nowMs then return .expired
  else
    match ← fetchCurrentHeadSha with
    | none => return .stale
    | some current =>
      if !resultMatchesJob toLowerCase job resultHeadSha current then return .stale
      else
        publish
        return .published

/-! ## Publishing -/

/-- What a call of `publish` stores before it writes to the forge. -/
def recordToPersist (record : JobRecord) (existing : Option PublicationRecord) (payload : String) (nowMs : Number) :
    PublicationRecord where
  jobId := record.job.jobId
  publicationState := .pending
  destination := boundedDetail
    (record.job.platform.name ++ ":" ++ record.job.repoFullName ++ "#" ++ numberToString record.job.prNumber) 256
  publicationId := (existing.map (·.publicationId)).getD ""
  attempt := (existing.map (·.attempt)).getD 0
  lastError := ""
  resultHeadSha := record.resultHeadSha
  resultPayload := payload
  history := (existing.map (·.history)).getD []
  createdAtMs := (existing.map (·.createdAtMs)).getD nowMs
  updatedAtMs := nowMs

/-- The payload and the usage entries to store: those of the stored record, or of the artifact. -/
def contentOf (record : JobRecord) (existing : Option PublicationRecord) (nowMs : Number) :
    Program (Option (String × List Value)) :=
  match existing.filter (·.resultPayload ≠ "") with
  | some existing => pure (some (existing.resultPayload, []))
  | none =>
    readPublicationArtifact stringify secretShaped record.job.jobId record.attempt record.resultHeadSha nowMs

/-- The record and the usage entries in one batch; `false` when the store fails. -/
def persist (record : PublicationRecord) (usage : List Value) : Program Bool :=
  tryCatch (do
    let _ ← ask (.store (.apply (.putPublication (publicationValue record) :: usage.map .recordUsage)))
    return true)
  fun _ => return false

def recordAttempt (jobId : String) (atMs : Number) (outcome : PublicationOutcome) (detail : String) : Program Bool :=
  ask (.store (.apply
    [.recordPublicationAttempt jobId (.number atMs) (.string outcome.name) (.string detail)]))

/-- The write to the forge, and the record of it. -/
def writeThrough (job : ReviewJob) (persisted : PublicationRecord) : Program Unit := do
  let publicationId ← ask (.forgePublish job persisted.resultPayload)
  let now ← ask .now
  let _ ← ask (.store (.apply [.putPublication (publicationValue
    { persisted with
      publicationState := .published, publicationId := boundedDetail publicationId 256
      attempt := persisted.attempt + 1, updatedAtMs := now })]))

/-- The gate, and what it lets through; the result says that the record settles. -/
def publishFresh (record : JobRecord) (persisted : PublicationRecord) (currentHead : String) (nowMs : Number) :
    Program Bool := do
  let jobId := record.job.jobId
  let runId := executionRunId jobId record.attempt
  match ← gateJobPublication toLowerCase record.job record.resultHeadSha (pure (some currentHead))
      (writeThrough record.job persisted) nowMs with
  | .published =>
    let now ← ask .now
    mirrorRunTransition runId .completed now { resultHeadSha := .string record.resultHeadSha }
    return true
  | gate =>
    let detail := if gate = .stale then "stale-head" else "expired"
    let now ← ask .now
    let _ ← recordAttempt jobId now .failed detail
    let now ← ask .now
    mirrorRunTransition runId .failed now { failureReason := .string detail }
    return true

def publishPersisted (record : JobRecord) (persisted : PublicationRecord) (nowMs : Number) : Program Bool := do
  match ← ask (.currentHeadSha record.job) with
  | none =>
    let _ ← recordAttempt record.job.jobId nowMs .attempt "current head unreadable"
    return false
  | some currentHead =>
    tryCatch (publishFresh toLowerCase record persisted currentHead nowMs) fun e => do
      let now ← ask .now
      let _ ← recordAttempt record.job.jobId now .attempt (boundedDetail e.message 256)
      return false

def publish (record : JobRecord) : Program Bool := do
  if record.state ≠ .publishing ∨ record.resultHeadSha = "" then return false
  else
    let nowMs ← ask .now
    let existing ← ask (.getPublication record.job.jobId)
    if existing.any (·.publicationState = .published) then return true
    else
      match ← contentOf stringify secretShaped record existing nowMs with
      | none => return false
      | some (payload, usage) =>
        let persisted := recordToPersist record existing payload nowMs
        if ← persist persisted usage then publishPersisted toLowerCase record persisted nowMs
        else return false

end

end PrReviewer.Controller.Daemon
