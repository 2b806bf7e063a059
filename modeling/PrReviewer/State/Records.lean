import PrReviewer.Js.Integer
import PrReviewer.Queue.Store

/-!
# Control-plane records

`src/state/types.ts`: the records the controller keeps across restarts, with one validator for each.
As for the queue, a validator reads the fields with their types (`readRun`) and then checks the rules on
them (`validRun`), so a value is accepted exactly when both succeed, and a record that satisfies the rules
reads back from its own object as itself (`validateRun_runValue`).

- The content check of a publication payload (canonical JSON of an object, nothing that looks like a
  secret) is a function of the payload text, the parameter `payloadOk`.
- A count of a usage entry is a natural number up to `maxSafe`; times are JavaScript numbers.
-/

open Js List

namespace PrReviewer.State

open Queue (JobPlatform ReviewJobKind JobLifecycleState)

/-! ## Field rules -/

/-- `REASON_MAX_CHARS`. -/
def reasonMaxChars : Nat := 256

/-- `DETAIL_MAX_CHARS`. -/
def detailMaxChars : Nat := 2000

/-- `PUBLICATION_HISTORY_CAP`. -/
def publicationHistoryCap : Nat := 32

/-- `PUBLICATION_PAYLOAD_MAX_CHARS`. -/
def publicationPayloadMaxChars : Nat := 65536

def isSafeNonNegativeInteger (x : Number) : Bool := Number.isSafeInteger x && decide (0 ≤ x)

/-- Non-empty, bounded, trimmed and without control characters. -/
def isIdentifier (max : Nat) (s : String) : Bool :=
  s ≠ "" && decide (strLength s ≤ max) && s = trim s && !hasControlChar s

def isOptionalIdentifier (max : Nat) (s : String) : Bool := s = "" || isIdentifier max s

def isSha (s : String) : Bool := isRun isLowerHex 7 64 s

def isShaOrEmpty (s : String) : Bool := s = "" || isSha s

def isConfigFingerprint (s : String) : Bool := isRun isLowerHex 8 64 s

def isFingerprintOrEmpty (s : String) : Bool := s = "" || isConfigFingerprint s

def isToken (s : String) : Bool := isRun isTokenChar 1 64 s

/-- `INSTALLATION_ID_PATTERN`. -/
def isInstallationId (s : String) : Bool := isPositiveDecimal 31 s

/-- `validateLeaseOwner(value) !== null`. -/
def isLeaseOwner (s : String) : Bool := isIdentifier 64 s

/-- `validateLeaseWindow`: the expiry of a lease taken at `nowMs`. -/
def validateLeaseWindow (nowMs ttlMs : Number) : Option Number :=
  if !isSafeNonNegativeInteger nowMs then none
  else if !isSafeNonNegativeInteger ttlMs || decide (ttlMs ≤ 0) then none
  else if !Number.isSafeInteger (nowMs + ttlMs) then none
  else some (nowMs + ttlMs)

/-- The present fields of a run patch; an absent one is carried over. -/
structure RunPatch where
  resultHeadSha : Option String := none
  failureReason : Option String := none
  supersededByJobId : Option String := none
  deriving DecidableEq

/-- A patch field of type `unknown`: absent, or a string that obeys the rule; `none` when malformed. -/
def patchField (rule : String → Bool) : Value → Option (Option String)
  | .undefined => some none
  | .string s => if rule s then some (some s) else none
  | _ => none

/-- `validateRunPatch` on the fields of the patch; a mutation without a patch has none of them. -/
def validateRunPatch (resultHeadSha failureReason supersededByJobId : Value) : Option RunPatch := do
  let resultHeadSha ← patchField isShaOrEmpty resultHeadSha
  let failureReason ← patchField (isOptionalIdentifier reasonMaxChars) failureReason
  let supersededByJobId ← patchField (isOptionalIdentifier 256) supersededByJobId
  return { resultHeadSha, failureReason, supersededByJobId }

/-! ## Installations -/

structure InstallationRecord where
  installationId : String
  platform : JobPlatform
  profileName : String
  accountLogin : String
  configRef : String
  createdAtMs : Number
  updatedAtMs : Number
  deriving DecidableEq

def readInstallation (value : Value) : Option InstallationRecord := do
  let installationId ← (value.get "installationId").string?
  let platform ← Queue.platform? (value.get "platform")
  let profileName ← (value.get "profileName").string?
  let accountLogin ← (value.get "accountLogin").string?
  let configRef ← (value.get "configRef").string?
  let createdAtMs ← (value.get "createdAtMs").number?
  let updatedAtMs ← (value.get "updatedAtMs").number?
  return { installationId, platform, profileName, accountLogin, configRef, createdAtMs, updatedAtMs }

def validInstallation (r : InstallationRecord) : Bool :=
  isInstallationId r.installationId &&
  isIdentifier 128 r.profileName &&
  isOptionalIdentifier 128 r.accountLogin &&
  isOptionalIdentifier 256 r.configRef &&
  isSafeNonNegativeInteger r.createdAtMs &&
  isSafeNonNegativeInteger r.updatedAtMs

def validateInstallation (value : Value) : Option InstallationRecord :=
  (readInstallation value).filter validInstallation

def installationValue (r : InstallationRecord) : Value :=
  .object [
    ("installationId", .string r.installationId), ("platform", .string r.platform.name),
    ("profileName", .string r.profileName), ("accountLogin", .string r.accountLogin),
    ("configRef", .string r.configRef), ("createdAtMs", .number r.createdAtMs),
    ("updatedAtMs", .number r.updatedAtMs)]

/-! ## Adopted repositories -/

structure AdoptedRepositoryRecord where
  platform : JobPlatform
  installationId : String
  repoFullName : String
  adoptionEpoch : String
  configFingerprint : String
  headFingerprint : String
  enabled : Bool
  adoptedAtMs : Number
  updatedAtMs : Number
  deriving DecidableEq

def readAdoptedRepository (value : Value) : Option AdoptedRepositoryRecord := do
  let platform ← Queue.platform? (value.get "platform")
  let installationId ← (value.get "installationId").string?
  let repoFullName ← (value.get "repoFullName").string?
  let adoptionEpoch ← (value.get "adoptionEpoch").string?
  let configFingerprint ← (value.get "configFingerprint").string?
  let headFingerprint ← (value.get "headFingerprint").string?
  let enabled ← (value.get "enabled").bool?
  let adoptedAtMs ← (value.get "adoptedAtMs").number?
  let updatedAtMs ← (value.get "updatedAtMs").number?
  return { platform, installationId, repoFullName, adoptionEpoch, configFingerprint, headFingerprint,
           enabled, adoptedAtMs, updatedAtMs }

def validAdoptedRepository (r : AdoptedRepositoryRecord) : Bool :=
  isInstallationId r.installationId &&
  isIdentifier 256 r.repoFullName &&
  isToken r.adoptionEpoch &&
  isConfigFingerprint r.configFingerprint &&
  isShaOrEmpty r.headFingerprint &&
  isSafeNonNegativeInteger r.adoptedAtMs &&
  isSafeNonNegativeInteger r.updatedAtMs

def validateAdoptedRepository (value : Value) : Option AdoptedRepositoryRecord :=
  (readAdoptedRepository value).filter validAdoptedRepository

def adoptedRepositoryValue (r : AdoptedRepositoryRecord) : Value :=
  .object [
    ("platform", .string r.platform.name), ("installationId", .string r.installationId),
    ("repoFullName", .string r.repoFullName), ("adoptionEpoch", .string r.adoptionEpoch),
    ("configFingerprint", .string r.configFingerprint),
    ("headFingerprint", .string r.headFingerprint), ("enabled", .bool r.enabled),
    ("adoptedAtMs", .number r.adoptedAtMs), ("updatedAtMs", .number r.updatedAtMs)]

/-! ## Runs -/

structure RunRecord where
  runId : String
  jobId : String
  kind : ReviewJobKind
  state : JobLifecycleState
  executorIdentity : String
  attempt : Number
  headSha : String
  configFingerprint : String
  leaseOwner : String
  leaseExpiresAtMs : Number
  resultHeadSha : String
  failureReason : String
  supersededByJobId : String
  createdAtMs : Number
  updatedAtMs : Number
  startedAtMs : Number
  finishedAtMs : Number
  deriving DecidableEq

def readRun (value : Value) : Option RunRecord := do
  let runId ← (value.get "runId").string?
  let jobId ← (value.get "jobId").string?
  let kind ← Queue.jobKind? (value.get "kind")
  let state ← Queue.state? (value.get "state")
  let executorIdentity ← (value.get "executorIdentity").string?
  let attempt ← (value.get "attempt").number?
  let headSha ← (value.get "headSha").string?
  let configFingerprint ← (value.get "configFingerprint").string?
  let leaseOwner ← (value.get "leaseOwner").string?
  let leaseExpiresAtMs ← (value.get "leaseExpiresAtMs").number?
  let resultHeadSha ← (value.get "resultHeadSha").string?
  let failureReason ← (value.get "failureReason").string?
  let supersededByJobId ← (value.get "supersededByJobId").string?
  let createdAtMs ← (value.get "createdAtMs").number?
  let updatedAtMs ← (value.get "updatedAtMs").number?
  let startedAtMs ← (value.get "startedAtMs").number?
  let finishedAtMs ← (value.get "finishedAtMs").number?
  return { runId, jobId, kind, state, executorIdentity, attempt, headSha, configFingerprint, leaseOwner,
           leaseExpiresAtMs, resultHeadSha, failureReason, supersededByJobId, createdAtMs, updatedAtMs,
           startedAtMs, finishedAtMs }

def validRun (r : RunRecord) : Bool :=
  isIdentifier 128 r.runId &&
  isIdentifier 256 r.jobId &&
  isIdentifier 128 r.executorIdentity &&
  isSafeNonNegativeInteger r.attempt &&
  isShaOrEmpty r.headSha &&
  isFingerprintOrEmpty r.configFingerprint &&
  isOptionalIdentifier 64 r.leaseOwner &&
  isSafeNonNegativeInteger r.leaseExpiresAtMs &&
  isShaOrEmpty r.resultHeadSha &&
  isOptionalIdentifier reasonMaxChars r.failureReason &&
  isOptionalIdentifier 256 r.supersededByJobId &&
  isSafeNonNegativeInteger r.createdAtMs &&
  isSafeNonNegativeInteger r.updatedAtMs &&
  isSafeNonNegativeInteger r.startedAtMs &&
  isSafeNonNegativeInteger r.finishedAtMs

def validateRun (value : Value) : Option RunRecord := (readRun value).filter validRun

def runValue (r : RunRecord) : Value :=
  .object [
    ("runId", .string r.runId), ("jobId", .string r.jobId), ("kind", .string r.kind.name),
    ("state", .string r.state.name), ("executorIdentity", .string r.executorIdentity),
    ("attempt", .number r.attempt), ("headSha", .string r.headSha),
    ("configFingerprint", .string r.configFingerprint), ("leaseOwner", .string r.leaseOwner),
    ("leaseExpiresAtMs", .number r.leaseExpiresAtMs), ("resultHeadSha", .string r.resultHeadSha),
    ("failureReason", .string r.failureReason),
    ("supersededByJobId", .string r.supersededByJobId), ("createdAtMs", .number r.createdAtMs),
    ("updatedAtMs", .number r.updatedAtMs), ("startedAtMs", .number r.startedAtMs),
    ("finishedAtMs", .number r.finishedAtMs)]

/-! ## Idempotency keys -/

structure IdempotencyKeyRecord where
  key : String
  binding : String
  createdAtMs : Number
  expiresAtMs : Number
  deriving DecidableEq

def readIdempotencyKey (value : Value) : Option IdempotencyKeyRecord := do
  let key ← (value.get "key").string?
  let binding ← (value.get "binding").string?
  let createdAtMs ← (value.get "createdAtMs").number?
  let expiresAtMs ← (value.get "expiresAtMs").number?
  return { key, binding, createdAtMs, expiresAtMs }

def validIdempotencyKey (r : IdempotencyKeyRecord) : Bool :=
  isIdentifier 256 r.key &&
  isIdentifier 256 r.binding &&
  isSafeNonNegativeInteger r.createdAtMs &&
  isSafeNonNegativeInteger r.expiresAtMs

def validateIdempotencyKey (value : Value) : Option IdempotencyKeyRecord :=
  (readIdempotencyKey value).filter validIdempotencyKey

def idempotencyKeyValue (r : IdempotencyKeyRecord) : Value :=
  .object [
    ("key", .string r.key), ("binding", .string r.binding), ("createdAtMs", .number r.createdAtMs),
    ("expiresAtMs", .number r.expiresAtMs)]

/-! ## Publications -/

inductive PublicationOutcome where
  | attempt
  | published
  | failed
  deriving DecidableEq, Repr

def PublicationOutcome.name : PublicationOutcome → String
  | .attempt => "attempt"
  | .published => "published"
  | .failed => "failed"

def outcome? : Value → Option PublicationOutcome
  | .string s => [PublicationOutcome.attempt, .published, .failed].find? (fun o => o.name = s)
  | _ => none

inductive PublicationState where
  | pending
  | published
  | failed
  deriving DecidableEq, Repr

def PublicationState.name : PublicationState → String
  | .pending => "pending"
  | .published => "published"
  | .failed => "failed"

def publicationState? : Value → Option PublicationState
  | .string s => [PublicationState.pending, .published, .failed].find? (fun p => p.name = s)
  | _ => none

structure PublicationHistoryEntry where
  atMs : Number
  outcome : PublicationOutcome
  detail : String
  deriving DecidableEq

def readHistoryEntry (value : Value) : Option PublicationHistoryEntry := do
  let atMs ← (value.get "atMs").number?
  let outcome ← outcome? (value.get "outcome")
  let detail ← (value.get "detail").string?
  return { atMs, outcome, detail }

def validHistoryEntry (e : PublicationHistoryEntry) : Bool :=
  isSafeNonNegativeInteger e.atMs && isOptionalIdentifier detailMaxChars e.detail

def validatePublicationHistoryEntry (value : Value) : Option PublicationHistoryEntry :=
  (readHistoryEntry value).filter validHistoryEntry

def historyEntryValue (e : PublicationHistoryEntry) : Value :=
  .object [("atMs", .number e.atMs), ("outcome", .string e.outcome.name), ("detail", .string e.detail)]

structure PublicationRecord where
  jobId : String
  publicationState : PublicationState
  destination : String
  publicationId : String
  attempt : Number
  lastError : String
  resultHeadSha : String
  resultPayload : String
  history : List PublicationHistoryEntry
  createdAtMs : Number
  updatedAtMs : Number
  deriving DecidableEq

def readHistory : Value → Option (List PublicationHistoryEntry)
  | .array xs => xs.mapM validatePublicationHistoryEntry
  | _ => none

def readPublication (value : Value) : Option PublicationRecord := do
  let jobId ← (value.get "jobId").string?
  let publicationState ← publicationState? (value.get "publicationState")
  let destination ← (value.get "destination").string?
  let publicationId ← (value.get "publicationId").string?
  let attempt ← (value.get "attempt").number?
  let lastError ← (value.get "lastError").string?
  let resultHeadSha ← (value.get "resultHeadSha").string?
  let resultPayload ← (value.get "resultPayload").string?
  let history ← readHistory (value.get "history")
  let createdAtMs ← (value.get "createdAtMs").number?
  let updatedAtMs ← (value.get "updatedAtMs").number?
  return { jobId, publicationState, destination, publicationId, attempt, lastError, resultHeadSha,
           resultPayload, history, createdAtMs, updatedAtMs }

/-- The rules on a publication. `payloadOk` is the content check of the payload: the canonical JSON
encoding of an object, without anything that looks like a secret. -/
def validPublication (payloadOk : String → Bool) (r : PublicationRecord) : Bool :=
  isIdentifier 256 r.jobId &&
  isIdentifier 256 r.destination &&
  isOptionalIdentifier 256 r.publicationId &&
  isSafeNonNegativeInteger r.attempt &&
  isOptionalIdentifier detailMaxChars r.lastError &&
  isShaOrEmpty r.resultHeadSha &&
  isIdentifier publicationPayloadMaxChars r.resultPayload &&
  payloadOk r.resultPayload &&
  isSafeNonNegativeInteger r.createdAtMs &&
  isSafeNonNegativeInteger r.updatedAtMs &&
  decide (r.history.length ≤ publicationHistoryCap)

def validatePublication (payloadOk : String → Bool) (value : Value) : Option PublicationRecord :=
  (readPublication value).filter (validPublication payloadOk)

def publicationValue (r : PublicationRecord) : Value :=
  .object [
    ("jobId", .string r.jobId), ("publicationState", .string r.publicationState.name),
    ("destination", .string r.destination), ("publicationId", .string r.publicationId),
    ("attempt", .number r.attempt), ("lastError", .string r.lastError),
    ("resultHeadSha", .string r.resultHeadSha), ("resultPayload", .string r.resultPayload),
    ("history", .array (r.history.map historyEntryValue)), ("createdAtMs", .number r.createdAtMs),
    ("updatedAtMs", .number r.updatedAtMs)]

/-! ## Usage -/

inductive UsageRole where
  | primary
  | specialist
  | tool
  | evidence
  | judge
  deriving DecidableEq, Repr

def UsageRole.name : UsageRole → String
  | .primary => "primary"
  | .specialist => "specialist"
  | .tool => "tool"
  | .evidence => "evidence"
  | .judge => "judge"

def usageRole? : Value → Option UsageRole
  | .string s =>
    [UsageRole.primary, .specialist, .tool, .evidence, .judge].find? (fun r => r.name = s)
  | _ => none

inductive UsageCostProvenance where
  | providerReported
  | configuredEstimate
  | unknown
  deriving DecidableEq, Repr

def UsageCostProvenance.name : UsageCostProvenance → String
  | .providerReported => "provider-reported"
  | .configuredEstimate => "configured-estimate"
  | .unknown => "unknown"

def costProvenance? : Value → Option UsageCostProvenance
  | .string s =>
    [UsageCostProvenance.providerReported, .configuredEstimate, .unknown].find? (fun p => p.name = s)
  | _ => none

/-- A safe non-negative integer, as the natural number it is. -/
def safeCount? : Value → Option Nat
  | .count n => if n ≤ maxSafe then some n else none
  | .number x => x.safeNat?
  | _ => none

structure UsageRecord where
  usageId : String
  runId : String
  route : String
  role : UsageRole
  requestCount : Nat
  inputTokens : Nat
  cacheReadTokens : Nat
  cacheWriteTokens : Nat
  outputTokens : Nat
  costMicros : Nat
  costProvenance : UsageCostProvenance
  recordedAtMs : Nat
  deriving DecidableEq

def readUsage (value : Value) : Option UsageRecord := do
  let usageId ← (value.get "usageId").string?
  let runId ← (value.get "runId").string?
  let route ← (value.get "route").string?
  let role ← usageRole? (value.get "role")
  let requestCount ← safeCount? (value.get "requestCount")
  let inputTokens ← safeCount? (value.get "inputTokens")
  let cacheReadTokens ← safeCount? (value.get "cacheReadTokens")
  let cacheWriteTokens ← safeCount? (value.get "cacheWriteTokens")
  let outputTokens ← safeCount? (value.get "outputTokens")
  let costMicros ← safeCount? (value.get "costMicros")
  let costProvenance ← costProvenance? (value.get "costProvenance")
  let recordedAtMs ← safeCount? (value.get "recordedAtMs")
  return { usageId, runId, route, role, requestCount, inputTokens, cacheReadTokens, cacheWriteTokens,
           outputTokens, costMicros, costProvenance, recordedAtMs }

def validUsage (r : UsageRecord) : Bool :=
  isIdentifier 256 r.usageId &&
  isIdentifier 128 r.runId &&
  isIdentifier 128 r.route &&
  decide (1 ≤ r.requestCount) &&
  !(r.costProvenance = .unknown && r.costMicros ≠ 0) &&
  ([r.requestCount, r.inputTokens, r.cacheReadTokens, r.cacheWriteTokens, r.outputTokens, r.costMicros,
    r.recordedAtMs].all fun n => decide (n ≤ maxSafe))

def validateUsage (value : Value) : Option UsageRecord := (readUsage value).filter validUsage

def usageValue (r : UsageRecord) : Value :=
  .object [
    ("usageId", .string r.usageId), ("runId", .string r.runId), ("route", .string r.route),
    ("role", .string r.role.name), ("requestCount", .count r.requestCount),
    ("inputTokens", .count r.inputTokens), ("cacheReadTokens", .count r.cacheReadTokens),
    ("cacheWriteTokens", .count r.cacheWriteTokens), ("outputTokens", .count r.outputTokens),
    ("costMicros", .count r.costMicros), ("costProvenance", .string r.costProvenance.name),
    ("recordedAtMs", .count r.recordedAtMs)]

/-! ## A valid record reads back -/

@[simp] theorem outcome?_name (o : PublicationOutcome) : outcome? (.string o.name) = some o := by
  cases o <;> decide

@[simp] theorem publicationState?_name (p : PublicationState) :
    publicationState? (.string p.name) = some p := by
  cases p <;> decide

@[simp] theorem usageRole?_name (r : UsageRole) : usageRole? (.string r.name) = some r := by
  cases r <;> decide

@[simp] theorem costProvenance?_name (p : UsageCostProvenance) :
    costProvenance? (.string p.name) = some p := by
  cases p <;> decide

/-- What a filtered read accepts satisfies the filter. -/
theorem valid_of_filter {α : Type} {read : Option α} {valid : α → Bool} {r : α}
    (h : read.filter valid = some r) : valid r = true :=
  (Option.filter_eq_some_iff.mp h).2

theorem filter_of_valid {α : Type} {valid : α → Bool} {r : α} (h : valid r = true) :
    (some r).filter valid = some r := by
  simp [Option.filter, h]

theorem validateInstallation_installationValue {r : InstallationRecord} (h : validInstallation r = true) :
    validateInstallation (installationValue r) = some r := by
  have hread : readInstallation (installationValue r) = some r := by
    simp [readInstallation, installationValue, Value.get, Value.string?, Value.number?, lookup_cons]
  rw [validateInstallation, hread, filter_of_valid h]

theorem validateAdoptedRepository_adoptedRepositoryValue {r : AdoptedRepositoryRecord}
    (h : validAdoptedRepository r = true) :
    validateAdoptedRepository (adoptedRepositoryValue r) = some r := by
  have hread : readAdoptedRepository (adoptedRepositoryValue r) = some r := by
    simp [readAdoptedRepository, adoptedRepositoryValue, Value.get, Value.string?, Value.number?,
      Value.bool?, lookup_cons]
  rw [validateAdoptedRepository, hread, filter_of_valid h]

theorem readRun_runValue (r : RunRecord) : readRun (runValue r) = some r := by
  simp [readRun, runValue, Value.get, Value.string?, Value.number?, lookup_cons]

theorem validateRun_runValue {r : RunRecord} (h : validRun r = true) :
    validateRun (runValue r) = some r := by
  rw [validateRun, readRun_runValue, filter_of_valid h]

theorem validateIdempotencyKey_idempotencyKeyValue {r : IdempotencyKeyRecord}
    (h : validIdempotencyKey r = true) :
    validateIdempotencyKey (idempotencyKeyValue r) = some r := by
  have hread : readIdempotencyKey (idempotencyKeyValue r) = some r := by
    simp [readIdempotencyKey, idempotencyKeyValue, Value.get, Value.string?, Value.number?, lookup_cons]
  rw [validateIdempotencyKey, hread, filter_of_valid h]

theorem validatePublicationHistoryEntry_historyEntryValue {e : PublicationHistoryEntry}
    (h : validHistoryEntry e = true) :
    validatePublicationHistoryEntry (historyEntryValue e) = some e := by
  have hread : readHistoryEntry (historyEntryValue e) = some e := by
    simp [readHistoryEntry, historyEntryValue, Value.get, Value.string?, Value.number?, lookup_cons]
  rw [validatePublicationHistoryEntry, hread, filter_of_valid h]

variable {r : PublicationRecord} {es : List PublicationHistoryEntry} {value : Value}

theorem readHistory_map
    (h : ∀ e ∈ es, validHistoryEntry e = true) :
    readHistory (.array (es.map historyEntryValue)) = some es := by
  unfold readHistory
  induction es with
  | nil => rfl
  | cons e es ih =>
    have hes := ih fun e he => h e (mem_cons_of_mem _ he)
    dsimp only at hes ⊢
    rw [map_cons, mapM_cons,
      validatePublicationHistoryEntry_historyEntryValue (h e mem_cons_self), hes]
    rfl

theorem valid_of_readHistory
    (h : readHistory value = some es) : ∀ e ∈ es, validHistoryEntry e = true := by
  unfold readHistory at h
  split at h
  · next xs =>
    induction xs generalizing es with
    | nil =>
      cases h
      simp
    | cons x xs ih =>
      rw [mapM_cons] at h
      cases hx : validatePublicationHistoryEntry x with
      | none => rw [hx] at h; cases h
      | some e =>
        cases hxs : xs.mapM validatePublicationHistoryEntry with
        | none => rw [hx, hxs] at h; cases h
        | some rest =>
          rw [hx, hxs] at h
          cases h
          intro e' he'
          rcases mem_cons.mp he' with rfl | he'
          · exact valid_of_filter hx
          · exact ih hxs e' he'
  · cases h

/-- What a stored publication satisfies: the rules on it and on each entry of its history. -/
def PublicationOk (payloadOk : String → Bool) (r : PublicationRecord) : Prop :=
  validPublication payloadOk r = true ∧ ∀ e ∈ r.history, validHistoryEntry e = true

theorem readPublication_publicationValue
    (h : ∀ e ∈ r.history, validHistoryEntry e = true) :
    readPublication (publicationValue r) = some r := by
  simp [readPublication, publicationValue, Value.get, Value.string?, Value.number?, lookup_cons,
    readHistory_map h]

theorem validatePublication_publicationValue {payloadOk : String → Bool}
    (h : PublicationOk payloadOk r) : validatePublication payloadOk (publicationValue r) = some r := by
  rw [validatePublication, readPublication_publicationValue h.2, filter_of_valid h.1]

theorem publicationOk_of_validate {payloadOk : String → Bool}
    (h : validatePublication payloadOk value = some r) : PublicationOk payloadOk r := by
  refine ⟨valid_of_filter h, ?_⟩
  obtain ⟨hread, -⟩ := Option.filter_eq_some_iff.mp h
  unfold readPublication at hread
  simp only [Option.bind_eq_bind, Option.bind_eq_some_iff] at hread
  obtain ⟨_, -, _, -, _, -, _, -, _, -, _, -, _, -, _, -, history, hhistory, _, -, _, -, hr⟩ := hread
  cases hr
  exact valid_of_readHistory hhistory

theorem validateUsage_usageValue {r : UsageRecord} (h : validUsage r = true) :
    validateUsage (usageValue r) = some r := by
  have hsafe := h
  simp only [validUsage, Bool.and_eq_true, all_eq_true, mem_cons, not_mem_nil, or_false,
    forall_eq_or_imp, forall_eq, decide_eq_true_eq] at hsafe
  obtain ⟨-, h1, h2, h3, h4, h5, h6, h7⟩ := hsafe
  have hread : readUsage (usageValue r) = some r := by
    simp [readUsage, usageValue, Value.get, Value.string?, lookup_cons, safeCount?, h1, h2, h3, h4, h5,
      h6, h7]
  rw [validateUsage, hread, filter_of_valid h]

end PrReviewer.State
