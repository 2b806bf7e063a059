import PrReviewer.Queue.Types
import Mathlib.Data.List.Sort

/-!
# Queue snapshots: validation, reload and crash recovery

`src/queue/store.ts`. A snapshot arrives as an untyped value; `parseQueueSnapshot` accepts it or
throws. Both parts of a validator are pure: reading the fields with their types (`readJob`,
`readRecord`) and the rules on them (`validJob`, `validTimes`), so that a value is accepted exactly
when both succeed.

- `readJob_jobValue`, `readRecord_recordValue`: a record written as an object reads back as itself.
- `jsonFileReload_of_accepted`: an accepted snapshot survives the JSON file, up to the sign of zero.
- `reconcileRecord_cases`: what crash recovery does to one record.
-/

open Js List

namespace PrReviewer.Queue

/-! ## Jobs as values -/

def jobKind? : Value → Option ReviewJobKind
  | .string s => if s = "review" then some .review else if s = "follow_up" then some .followUp else none
  | _ => none

def trigger? : Value → Option ReviewTrigger
  | .string s =>
    if s = "webhook" then some .webhook else if s = "poll" then some .poll
    else if s = "manual" then some .manual else none
  | _ => none

def platform? : Value → Option JobPlatform
  | .string s => if s = "github" then some .github else if s = "forgejo" then some .forgejo else none
  | _ => none

def state? : Value → Option JobLifecycleState
  | .string s =>
    [JobLifecycleState.queued, .starting, .running, .publishing, .completed, .failed, .cancelled,
      .superseded].find? (fun st => st.name = s)
  | _ => none

/-- The fields of a job, with their types. A missing `forgeIntegration` reads as `""` (older
snapshots do not have it). -/
def readJob (value : Value) : Option ReviewJob := do
  let jobId ← (value.get "jobId").string?
  let kind ← jobKind? (value.get "kind")
  let trigger ← trigger? (value.get "trigger")
  let reason ← (value.get "reason").string?
  let platform ← platform? (value.get "platform")
  let installationId ← (value.get "installationId").string?
  let repoFullName ← (value.get "repoFullName").string?
  let prNumber ← (value.get "prNumber").number?
  let prId ← (value.get "prId").number?
  let headSha ← (value.get "headSha").string?
  let baseSha ← (value.get "baseSha").string?
  let configFingerprint ← (value.get "configFingerprint").string?
  let nonce ← (value.get "nonce").string?
  let adoptionEpoch ← (value.get "adoptionEpoch").string?
  let eventReference ← (value.get "eventReference").string?
  let forgeIntegration ←
    match value.get "forgeIntegration" with
    | .undefined => some ""
    | v => v.string?
  let fork ← (value.get "fork").bool?
  let deadlineAtMs ← (value.get "deadlineAtMs").number?
  let runId ← (value.get "runId").string?
  return { jobId, kind, trigger, reason, platform, installationId, repoFullName, prNumber, prId,
           headSha, baseSha, configFingerprint, nonce, adoptionEpoch, eventReference,
           forgeIntegration, fork, deadlineAtMs, runId }

/-- A non-empty string without control characters. -/
def isDisplayName (s : String) : Bool := s ≠ "" && !hasControlChar s

/-- `SHA_PATTERN`, or absent. -/
def isShaOrEmpty (s : String) : Bool := s = "" || isRun isLowerHex 7 64 s

/-- `TOKEN_PATTERN`, or absent. -/
def isTokenOrEmpty (s : String) : Bool := s = "" || isRun isTokenChar 1 64 s

def isSafeNonNegative (x : Number) : Bool := Number.isSafeInteger x && decide (0 ≤ x)

/-- The rules on a job's fields. -/
def validJob (job : ReviewJob) : Bool :=
  isDisplayName job.jobId &&
  isDisplayName job.reason &&
  (job.installationId = "" || isPositiveDecimal 31 job.installationId) &&
  isDisplayName job.repoFullName &&
  (Number.isSafeInteger job.prNumber && decide (0 < job.prNumber)) &&
  isSafeNonNegative job.prId &&
  isShaOrEmpty job.headSha &&
  !(job.kind = .review && job.headSha = "") &&
  isShaOrEmpty job.baseSha &&
  (job.configFingerprint = "" || isRun isLowerHex 8 64 job.configFingerprint) &&
  isTokenOrEmpty job.nonce &&
  !(job.kind = .followUp && job.nonce ≠ "") &&
  isTokenOrEmpty job.adoptionEpoch &&
  (match job.kind with
    | .review => job.eventReference = ""
    | .followUp => isPositiveDecimal 18 job.eventReference) &&
  isTokenOrEmpty job.forgeIntegration &&
  isSafeNonNegative job.deadlineAtMs &&
  (job.runId = "" ||
    (job.runId = trim job.runId && decide (strLength job.runId ≤ 128) &&
      !hasControlChar job.runId))

/-- Fail-closed validation of a job: a rebuilt job, or `none`. -/
def validateReviewJob (value : Value) : Option ReviewJob :=
  (readJob value).filter validJob

/-- A job as an object. -/
def jobValue (job : ReviewJob) : Value :=
  .object [
    ("jobId", .string job.jobId), ("kind", .string job.kind.name),
    ("trigger", .string job.trigger.name), ("reason", .string job.reason),
    ("platform", .string job.platform.name), ("installationId", .string job.installationId),
    ("repoFullName", .string job.repoFullName), ("prNumber", .number job.prNumber),
    ("prId", .number job.prId), ("headSha", .string job.headSha), ("baseSha", .string job.baseSha),
    ("configFingerprint", .string job.configFingerprint), ("nonce", .string job.nonce),
    ("adoptionEpoch", .string job.adoptionEpoch), ("eventReference", .string job.eventReference),
    ("forgeIntegration", .string job.forgeIntegration), ("fork", .bool job.fork),
    ("deadlineAtMs", .number job.deadlineAtMs), ("runId", .string job.runId)]

@[simp] theorem jobKind?_name (k : ReviewJobKind) : jobKind? (.string k.name) = some k := by
  cases k <;> decide

@[simp] theorem trigger?_name (t : ReviewTrigger) : trigger? (.string t.name) = some t := by
  cases t <;> decide

@[simp] theorem platform?_name (p : JobPlatform) : platform? (.string p.name) = some p := by
  cases p <;> decide

@[simp] theorem state?_name (s : JobLifecycleState) : state? (.string s.name) = some s := by
  cases s <;> decide

theorem readJob_jobValue (job : ReviewJob) : readJob (jobValue job) = some job := by
  simp [readJob, jobValue, Value.get, Value.string?, Value.number?, Value.bool?, lookup_cons]

theorem validateReviewJob_jobValue (job : ReviewJob) :
    validateReviewJob (jobValue job) = if validJob job = true then some job else none := by
  rw [validateReviewJob, readJob_jobValue]
  rfl

/-! ## Records as values -/

/-- A finite natural number, the form of `attempt`. -/
def natural? : Value → Option Nat
  | .count n => some n
  | .number x =>
    if x.isFinite && Number.isInteger x && decide (0 ≤ x) then some (Number.toNat x) else none
  | _ => none

/-- The fields of a record, with their types. -/
def readRecord (value : Value) : Option JobRecord := do
  let job ← validateReviewJob (value.get "job")
  let prKey ← (value.get "prKey").string?
  let state ← state? (value.get "state")
  let enqueuedAtMs ← (value.get "enqueuedAtMs").number?
  let readyAtMs ← (value.get "readyAtMs").number?
  let nextRetryAtMs ← (value.get "nextRetryAtMs").number?
  let leaseExpiresAtMs ← (value.get "leaseExpiresAtMs").number?
  let updatedAtMs ← (value.get "updatedAtMs").number?
  let attempt ← natural? (value.get "attempt")
  let cancelRequested ← (value.get "cancelRequested").bool?
  let leaseOwner ← (value.get "leaseOwner").string?
  let resultHeadSha ← (value.get "resultHeadSha").string?
  let failureReason ← (value.get "failureReason").string?
  let supersededByJobId ← (value.get "supersededByJobId").string?
  return { job, prKey, state, enqueuedAtMs, readyAtMs, attempt, nextRetryAtMs, leaseOwner,
           leaseExpiresAtMs, cancelRequested, resultHeadSha, failureReason, supersededByJobId,
           updatedAtMs }

/-- `isFiniteNonNegativeNumber` of every time of the record. -/
def validTimes (r : JobRecord) : Bool :=
  [r.enqueuedAtMs, r.readyAtMs, r.nextRetryAtMs, r.leaseExpiresAtMs, r.updatedAtMs].all
    (fun t => t.isFinite && decide (0 ≤ t))

variable {r : JobRecord} {records : List JobRecord} {owner : String} {now : Number}

theorem validTimes_iff :
    validTimes r = true ↔
      Number.IsTime r.enqueuedAtMs ∧ Number.IsTime r.readyAtMs ∧ Number.IsTime r.nextRetryAtMs ∧
        Number.IsTime r.leaseExpiresAtMs ∧ Number.IsTime r.updatedAtMs := by
  simp [validTimes, Number.IsTime]

def parseJobRecord (value : Value) : Option JobRecord :=
  (readRecord value).filter validTimes

/-- A record as an object, its fields in the order of the serializer. -/
def recordValue (r : JobRecord) : Value :=
  .object [
    ("job", jobValue r.job), ("prKey", .string r.prKey), ("state", .string r.state.name),
    ("enqueuedAtMs", .number r.enqueuedAtMs), ("readyAtMs", .number r.readyAtMs),
    ("attempt", .count r.attempt), ("nextRetryAtMs", .number r.nextRetryAtMs),
    ("leaseOwner", .string r.leaseOwner), ("leaseExpiresAtMs", .number r.leaseExpiresAtMs),
    ("cancelRequested", .bool r.cancelRequested), ("resultHeadSha", .string r.resultHeadSha),
    ("failureReason", .string r.failureReason),
    ("supersededByJobId", .string r.supersededByJobId), ("updatedAtMs", .number r.updatedAtMs)]

theorem readRecord_recordValue (r : JobRecord) :
    readRecord (recordValue r) = if validJob r.job = true then some r else none := by
  have hj : (recordValue r).get "job" = jobValue r.job := rfl
  rw [readRecord, hj, validateReviewJob_jobValue]
  by_cases h : validJob r.job = true
  · rw [if_pos h, if_pos h]
    simp [recordValue, Value.get, Value.string?, Value.number?, Value.bool?, natural?, lookup_cons]
  · rw [if_neg h, if_neg h]
    rfl

theorem parseJobRecord_recordValue (r : JobRecord) :
    parseJobRecord (recordValue r) =
      if validJob r.job = true ∧ validTimes r = true then some r else none := by
  rw [parseJobRecord, readRecord_recordValue]
  by_cases h : validJob r.job = true <;> by_cases ht : validTimes r = true <;>
    simp [h, ht, Option.filter]

/-! ## Snapshots -/

/-- One durable snapshot: the whole queue as of a commit point. -/
structure QueueSnapshot where
  records : List JobRecord
  deriving DecidableEq

def emptyQueueSnapshot : QueueSnapshot := ⟨[]⟩

def checkSnapshotEnvelope (value : Value) : Except Exn (List Value) :=
  match value with
  | .object fields =>
    if !fields.all (fun f => ["version", "records"].contains f.1) then
      .error (error "queue snapshot: unknown top-level key present")
    else
      match value.get "version" with
      | .number v =>
        if v == 1 then
          match value.get "records" with
          | .array xs => .ok xs
          | _ => .error (error "queue snapshot: records must be an array")
        else .error (error "queue snapshot: unsupported version")
      | _ => .error (error "queue snapshot: unsupported version")
  | _ => .error (error "queue snapshot: top-level value must be a plain object")

/-- The parsed records; `seenJobIds` are the generations parsed before. -/
def parseSnapshotRecords (seenJobIds : List String) : List Value → Except Exn (List JobRecord)
  | [] => .ok []
  | element :: rest =>
    match parseJobRecord element with
    | none => .error (error "queue snapshot: malformed job record")
    | some record =>
      if record.prKey ≠ prIdentityKey record.job then
        .error (error "queue snapshot: record prKey inconsistent with its job")
      else if seenJobIds.contains record.job.jobId then
        .error (error "queue snapshot: duplicate job id in snapshot")
      else
        match parseSnapshotRecords (record.job.jobId :: seenJobIds) rest with
        | .error e => .error e
        | .ok records => .ok (record :: records)

def parseQueueSnapshot (value : Value) : Except Exn QueueSnapshot :=
  match checkSnapshotEnvelope value with
  | .error e => .error e
  | .ok raw =>
    match parseSnapshotRecords [] raw with
    | .error e => .error e
    | .ok records => .ok ⟨records⟩

/-- A snapshot as an object. -/
def snapshotValue (records : List JobRecord) : Value :=
  .object [("version", .number 1), ("records", .array (records.map recordValue))]

/-- What `parseQueueSnapshot` asks of one record. -/
structure RecordOk (r : JobRecord) : Prop where
  job : validJob r.job = true
  times : validTimes r = true
  prKey : r.prKey = prIdentityKey r.job

/-- What `parseQueueSnapshot` asks of a snapshot. -/
structure SnapshotOk (records : List JobRecord) : Prop where
  record : ∀ r ∈ records, RecordOk r
  distinct : (records.map (·.job.jobId)).Nodup

theorem checkSnapshotEnvelope_snapshotValue (records : List JobRecord) :
    checkSnapshotEnvelope (snapshotValue records) = .ok (records.map recordValue) := by
  have hv : (snapshotValue records).get "version" = .number 1 := rfl
  have hr : (snapshotValue records).get "records" = .array (records.map recordValue) := rfl
  have h1 : ((1 : Number) == 1) = true := by decide
  simp only [checkSnapshotEnvelope, snapshotValue] at *
  simp [hv, hr, h1]

/-- The records of `parseSnapshotRecords`, which never change on the way. -/
theorem parseSnapshotRecords_map {seen : List String} {out : List JobRecord} :
    parseSnapshotRecords seen (records.map recordValue) = .ok out ↔
      out = records ∧ (∀ r ∈ records, RecordOk r) ∧
        (records.map (·.job.jobId)).Nodup ∧ ∀ r ∈ records, r.job.jobId ∉ seen := by
  induction records generalizing seen out with
  | nil => simp [parseSnapshotRecords, eq_comm]
  | cons r rest ih =>
    rw [map_cons, parseSnapshotRecords, parseJobRecord_recordValue]
    by_cases hv : validJob r.job = true ∧ validTimes r = true
    · rw [if_pos hv]
      dsimp only
      by_cases hk : r.prKey = prIdentityKey r.job
      · rw [if_neg (by simp [hk])]
        by_cases hs : r.job.jobId ∈ seen
        · rw [if_pos (by simpa using hs)]
          simp [hs]
        · rw [if_neg (by simpa using hs)]
          constructor
          · intro h
            split at h
            · cases h
            · next o ho =>
              cases h
              obtain ⟨rfl, hok, hnd, hseen⟩ := ih.mp ho
              refine ⟨rfl, ?_, ?_, ?_⟩
              · rintro x hx
                rcases mem_cons.mp hx with rfl | hx
                · exact ⟨hv.1, hv.2, hk⟩
                · exact hok x hx
              · rw [map_cons, nodup_cons]
                refine ⟨fun hm => ?_, hnd⟩
                obtain ⟨x, hx, he⟩ := mem_map.mp hm
                exact hseen x hx (by simp [he])
              · rintro x hx
                rcases mem_cons.mp hx with rfl | hx
                · exact hs
                · exact fun hm => hseen x hx (mem_cons_of_mem _ hm)
          · rintro ⟨rfl, hok, hnd, hseen⟩
            rw [map_cons, nodup_cons] at hnd
            rw [ih.mpr ⟨rfl, fun x hx => hok x (mem_cons_of_mem _ hx), hnd.2, fun x hx hm => ?_⟩]
            rcases mem_cons.mp hm with he | hm
            · exact hnd.1 (mem_map.mpr ⟨x, hx, he⟩)
            · exact hseen x (mem_cons_of_mem _ hx) hm
      · rw [if_pos hk]
        simp only [reduceCtorEq, false_iff]
        rintro ⟨-, hok, -⟩
        exact hk (hok r mem_cons_self).prKey
    · rw [if_neg hv]
      simp only [reduceCtorEq, false_iff]
      rintro ⟨-, hok, -⟩
      exact hv ⟨(hok r mem_cons_self).job, (hok r mem_cons_self).times⟩

/-- **A snapshot is accepted exactly when it is in order, and then as it is.** -/
theorem parseQueueSnapshot_snapshotValue {s : QueueSnapshot} :
    parseQueueSnapshot (snapshotValue records) = .ok s ↔ s = ⟨records⟩ ∧ SnapshotOk records := by
  rw [parseQueueSnapshot, checkSnapshotEnvelope_snapshotValue]
  dsimp only
  constructor
  · intro h
    split at h
    · cases h
    · next out ho =>
      cases h
      obtain ⟨rfl, hok, hnd, -⟩ := parseSnapshotRecords_map.mp ho
      exact ⟨rfl, hok, hnd⟩
  · rintro ⟨rfl, hok, hnd⟩
    rw [parseSnapshotRecords_map.mpr ⟨rfl, hok, hnd, by simp⟩]

/-! ## The two backends -/

/-- `InMemoryQueueStore`: `load` gives back the snapshot that `save` parsed. -/
def inMemoryReload (s : QueueSnapshot) : Except Exn QueueSnapshot := .ok s

/-- `JsonFileQueueStore`: `load` parses the JSON text that `save` wrote. -/
def jsonFileReload (s : QueueSnapshot) : Except Exn QueueSnapshot :=
  parseQueueSnapshot (snapshotValue s.records).jsonReparse

/-- The job with every `-0` replaced by `0`: equal to it under `===`. -/
def ReviewJob.plusZero (job : ReviewJob) : ReviewJob :=
  { job with
    prNumber := Number.plusZero job.prNumber
    prId := Number.plusZero job.prId
    deadlineAtMs := Number.plusZero job.deadlineAtMs }

/-- The record with every `-0` replaced by `0`: equal to it under `===`. -/
def JobRecord.plusZero (r : JobRecord) : JobRecord :=
  { r with
    job := r.job.plusZero
    enqueuedAtMs := Number.plusZero r.enqueuedAtMs
    readyAtMs := Number.plusZero r.readyAtMs
    nextRetryAtMs := Number.plusZero r.nextRetryAtMs
    leaseExpiresAtMs := Number.plusZero r.leaseExpiresAtMs
    updatedAtMs := Number.plusZero r.updatedAtMs }

theorem jsonNumber_of_isFinite {x : Number} (h : x.isFinite = true) :
    Value.jsonNumber x = .number (Number.plusZero x) := by
  rw [Value.jsonNumber, if_pos h, Number.plusZero]

theorem validJob_plusZero (job : ReviewJob) : validJob job.plusZero = validJob job := by
  simp only [validJob, ReviewJob.plusZero, isSafeNonNegative, Number.isSafeInteger_plusZero,
    Number.le_plusZero, Number.lt_plusZero]
  rfl

theorem validTimes_plusZero (r : JobRecord) : validTimes r.plusZero = validTimes r := by
  simp [validTimes, JobRecord.plusZero, Number.isFinite_plusZero, Number.le_plusZero]

theorem prIdentityKey_plusZero (job : ReviewJob) :
    prIdentityKey job.plusZero = prIdentityKey job := by
  simp [prIdentityKey, ReviewJob.plusZero, intName, Number.toNat_plusZero]

theorem RecordOk.plusZero (h : RecordOk r) : RecordOk r.plusZero where
  job := (validJob_plusZero r.job).trans h.job
  times := (validTimes_plusZero r).trans h.times
  prKey := h.prKey.trans (prIdentityKey_plusZero r.job).symm

theorem isFinite_of_validJob {job : ReviewJob} (h : validJob job = true) :
    job.prNumber.isFinite = true ∧ job.prId.isFinite = true ∧ job.deadlineAtMs.isFinite = true := by
  simp only [validJob, isSafeNonNegative, Bool.and_eq_true] at h
  refine ⟨?_, ?_, ?_⟩ <;> refine Number.isFinite_of_isSafeInteger ?_ <;> tauto

/-- A valid record comes back from JSON as itself, up to the sign of zero. -/
theorem jsonReparse_recordValue (h : RecordOk r) :
    (recordValue r).jsonReparse = recordValue r.plusZero := by
  obtain ⟨h1, h2, h3⟩ := isFinite_of_validJob h.job
  have ht := h.times
  simp only [validTimes, all_cons, all_nil, Bool.and_eq_true] at ht
  simp [recordValue, jobValue, Value.jsonReparse, Value.jsonReparse.entries, JobRecord.plusZero,
    ReviewJob.plusZero, jsonNumber_of_isFinite, *]

/-- **Reload.** An accepted snapshot comes back from the JSON file as itself, up to the sign of
zero. -/
theorem jsonFileReload_of_ok (h : SnapshotOk records) :
    jsonFileReload ⟨records⟩ = .ok ⟨records.map JobRecord.plusZero⟩ := by
  have hv : (snapshotValue records).jsonReparse = snapshotValue (records.map JobRecord.plusZero) := by
    have h1 : Value.jsonNumber 1 = .number 1 := by
      rw [jsonNumber_of_isFinite (by decide)]
      exact congrArg Value.number (by decide)
    simp only [snapshotValue, Value.jsonReparse, Value.jsonReparse.entries, h1,
      Value.elements_eq_map, map_map]
    simp only [Value.object.injEq, List.cons.injEq, Prod.mk.injEq, true_and, and_true,
      Value.array.injEq]
    exact map_congr_left fun r hr => jsonReparse_recordValue (h.record r hr)
  rw [jsonFileReload, hv]
  refine parseQueueSnapshot_snapshotValue.mpr ⟨rfl, ?_, ?_⟩
  · intro r hr
    obtain ⟨x, hx, rfl⟩ := mem_map.mp hr
    exact (h.record x hx).plusZero
  · simpa [map_map, Function.comp_def, JobRecord.plusZero, ReviewJob.plusZero] using h.distinct

/-! ## Crash recovery -/

/-- What recovery does to a record. -/
inductive RecoveryVerdict where
  | keep
  | keepPublishing
  | requeue
  | fail
  deriving DecidableEq

/-- The lease is absent or has expired. -/
def leaseGone (record : JobRecord) (nowMs : Number) : Bool :=
  record.leaseOwner = "" || record.leaseExpiresAtMs == 0 || decide (record.leaseExpiresAtMs ≤ nowMs)

def recoveryVerdict (nowMs : Number) (maxAttempts : Nat) (record : JobRecord) : RecoveryVerdict :=
  if !isActiveState record.state then .keep
  else if !leaseGone record nowMs then .keep
  else if record.state = .publishing && record.resultHeadSha ≠ "" then .keepPublishing
  else if record.attempt < maxAttempts then .requeue
  else .fail

/-- The record that the restarted controller adopts. -/
def reconcileRecord (nowMs : Number) (maxAttempts : Nat) (record : JobRecord) : JobRecord :=
  match recoveryVerdict nowMs maxAttempts record with
  | .keep => record
  | .keepPublishing => { record.unleased with updatedAtMs := nowMs }
  | .requeue =>
    { record.unleased with
      state := .queued, readyAtMs := nowMs, nextRetryAtMs := 0, cancelRequested := false,
      updatedAtMs := nowMs }
  | .fail =>
    { record.unleased with
      state := .failed, failureReason := "lease-expired-attempt-limit", updatedAtMs := nowMs }

/-- The ids of the records with verdict `v`, sorted as JavaScript sorts strings. -/
def movedJobIds (nowMs : Number) (maxAttempts : Nat) (v : RecoveryVerdict)
    (records : List JobRecord) : List String :=
  ((records.filter (fun r => recoveryVerdict nowMs maxAttempts r = v)).map
    (·.job.jobId)).insertionSort (fun a b => !strLt b a)

structure Reconciled where
  snapshot : QueueSnapshot
  requeued : List String
  failed : List String

/-- Restart recovery. The snapshot is validated as a whole before any of it is used. -/
def reconcileRecoveredSnapshot (snapshot : QueueSnapshot) (nowMs : Number) (maxAttempts : Nat) :
    Except Exn Reconciled :=
  if !nowMs.isFinite then
    .error (rangeError ("nowMs must be a finite number, got " ++ nonFiniteName nowMs))
  else
    match parseQueueSnapshot (snapshotValue snapshot.records) with
    | .error e => .error e
    | .ok rebuilt => .ok {
        snapshot := ⟨rebuilt.records.map (reconcileRecord nowMs maxAttempts)⟩
        requeued := movedJobIds nowMs maxAttempts .requeue rebuilt.records
        failed := movedJobIds nowMs maxAttempts .fail rebuilt.records }

/-- What recovery can make of the record `r`. -/
inductive Recovery (nowMs : Number) (maxAttempts : Nat) (r : JobRecord) : JobRecord → Prop
  | keep : Recovery nowMs maxAttempts r r
  | keepPublishing (hd : r.durable = true) :
      Recovery nowMs maxAttempts r { r.unleased with updatedAtMs := nowMs }
  | requeue (hb : r.blocking = true) (ha : r.attempt < maxAttempts)
      (hv : recoveryVerdict nowMs maxAttempts r = .requeue) :
      Recovery nowMs maxAttempts r
        { r.unleased with
          state := .queued, readyAtMs := nowMs, nextRetryAtMs := 0, cancelRequested := false,
          updatedAtMs := nowMs }
  | fail (hb : r.blocking = true) :
      Recovery nowMs maxAttempts r
        { r.unleased with
          state := .failed, failureReason := "lease-expired-attempt-limit", updatedAtMs := nowMs }

/-- A verdict other than `keep` is on an active record. -/
theorem durable_or_blocking {nowMs : Number} {n : Nat}
    (h : recoveryVerdict nowMs n r ≠ .keep) :
    r.durable = true ∧ recoveryVerdict nowMs n r = .keepPublishing ∨
      r.blocking = true ∧ r.attempt < n ∧ recoveryVerdict nowMs n r = .requeue ∨
      r.blocking = true ∧ recoveryVerdict nowMs n r = .fail := by
  have he : recoveryVerdict nowMs n r =
      if r.durable then .keepPublishing else if r.attempt < n then .requeue else .fail := by
    unfold recoveryVerdict at h ⊢
    split
    · next ha => rw [if_pos ha] at h; exact absurd rfl h
    · next ha =>
      split
      · next hl => rw [if_neg ha, if_pos hl] at h; exact absurd rfl h
      · rfl
  have ha : isActiveState r.state = true := by
    by_contra hx
    exact h (if_pos (by simpa using hx))
  rw [he]
  cases hd : r.durable with
  | true => exact .inl ⟨rfl, rfl⟩
  | false =>
    have hb : r.blocking = true := by rw [JobRecord.blocking, ha, hd]; rfl
    by_cases hn : r.attempt < n
    · exact .inr (.inl ⟨hb, hn, by simp [hn]⟩)
    · exact .inr (.inr ⟨hb, by simp [hn]⟩)

theorem reconcileRecord_recovery (nowMs : Number) (n : Nat) (r : JobRecord) :
    Recovery nowMs n r (reconcileRecord nowMs n r) := by
  unfold reconcileRecord
  by_cases hk : recoveryVerdict nowMs n r = .keep
  · rw [hk]; exact .keep
  · obtain ⟨hd, hv⟩ | ⟨hb, ha, hv⟩ | ⟨hb, hv⟩ := durable_or_blocking hk
    · rw [hv]; exact .keepPublishing hd
    · rw [hv]; exact .requeue hb ha hv
    · rw [hv]; exact .fail hb

/-- Recovery keeps the job, its key and the attempts. -/
theorem reconcileRecord_frame (now : Number) (n : Nat) (r : JobRecord) :
    (reconcileRecord now n r).job = r.job ∧ (reconcileRecord now n r).prKey = r.prKey ∧
      (reconcileRecord now n r).attempt = r.attempt ∧
      (reconcileRecord now n r).resultHeadSha = r.resultHeadSha ∧
      (reconcileRecord now n r).enqueuedAtMs = r.enqueuedAtMs := by
  unfold reconcileRecord
  split <;> exact ⟨rfl, rfl, rfl, rfl, rfl⟩

/-! ## Leases -/

/-- The lease belongs to `owner` and is live. -/
def leaseIsValid (record : JobRecord) (owner : String) (nowMs : Number) : Bool :=
  nowMs.isFinite && owner ≠ "" && !(record.leaseOwner = "" || record.leaseOwner ≠ owner) &&
    record.leaseExpiresAtMs.isFinite && decide (nowMs < record.leaseExpiresAtMs)

theorem leaseOwner_of_leaseIsValid
    (h : leaseIsValid r owner now = true) : r.leaseOwner = owner ∧ owner ≠ "" := by
  simp only [leaseIsValid, Bool.and_eq_true, Bool.not_eq_true', Bool.or_eq_false_iff,
    decide_eq_false_iff_not, not_not, decide_eq_true_eq] at h
  exact ⟨h.1.1.2.2, h.1.1.1.2⟩

/-- The record with a fresh lease held by `owner`. -/
def withRenewedLease (record : JobRecord) (owner : String) (nowMs ttlMs : Number) :
    Except Exn JobRecord :=
  if !nowMs.isFinite then
    .error (rangeError ("nowMs must be a finite number, got " ++ nonFiniteName nowMs))
  else if !ttlMs.isFinite || !decide (0 < ttlMs) then
    .error (rangeError "ttlMs must be a finite positive number")
  else if owner = "" then
    .error (rangeError "withRenewedLease: owner must be a non-empty string")
  else
    .ok { record with leaseOwner := owner, leaseExpiresAtMs := nowMs + ttlMs, updatedAtMs := nowMs }

theorem withRenewedLease_ok {r' : JobRecord} {ttl : Number}
    (h : withRenewedLease r owner now ttl = .ok r') :
    now.isFinite = true ∧ owner ≠ "" ∧
      r' = { r with leaseOwner := owner, leaseExpiresAtMs := now + ttl, updatedAtMs := now } := by
  unfold withRenewedLease at h
  split at h
  · cases h
  · next hf =>
    split at h
    · cases h
    · split at h
      · cases h
      · next ho =>
        cases h
        exact ⟨by simpa using hf, ho, rfl⟩

end PrReviewer.Queue
