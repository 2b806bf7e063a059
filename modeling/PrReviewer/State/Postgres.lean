import Mathlib.Data.List.Dedup
import PrReviewer.Sql.Table
import PrReviewer.State.Usage

/-!
# The PostgreSQL control-plane store

`src/state/postgres.ts`, over the tables of `src/state/migrations.ts`. A row is the record whose columns it
holds, and the row mappers read it through the validators again. An `apply` is one transaction, so a batch
that throws leaves the database as it was; the calls come one after the other.

- Each statement does what PostgreSQL documents (`Sql.Table`). A text parameter with a NUL character is
  refused by the server (`textParameters`); the texts of a validated record have none, so only the texts
  that no validator has seen are checked here.
- The orders of the rows (`ORDER BY`) depend on the collation of the database and are left out.
-/

open Js
open Sql

namespace PrReviewer.State.Postgres

open Queue (JobPlatform JobLifecycleState canTransition)

/-! ## Tables -/

def repositoryKey (r : AdoptedRepositoryRecord) : JobPlatform × String × String :=
  (r.platform, r.installationId, r.repoFullName)

structure Database where
  installations : Table InstallationRecord.installationId
  adoptedRepositories : Table repositoryKey
  runs : Table RunRecord.runId
  idempotencyKeys : Table IdempotencyKeyRecord.key
  publications : Table PublicationRecord.jobId
  usage : Table UsageRecord.usageId

/-- The tables of a fresh database. -/
def Database.empty : Database := ⟨.empty, .empty, .empty, .empty, .empty, .empty⟩

/-- A statement with text parameters. -/
def textParameters (texts : List String) : Except Exn Unit :=
  if texts.any fun s => s.toList.contains '\x00' then
    .error (error "invalid byte sequence for encoding \"UTF8\": 0x00")
  else .ok ()

/-! ## Row mapping -/

/-- A row that its validator refuses is an error. -/
def mapRow {ρ : Type} (validate : Value → Option ρ) (toValue : ρ → Value) (name : String) (row : ρ) :
    Except Exn ρ :=
  match validate (toValue row) with
  | none => .error (error ("postgres backend: malformed " ++ name ++ " row"))
  | some record => .ok record

def mapInstallation : InstallationRecord → Except Exn InstallationRecord :=
  mapRow validateInstallation installationValue "installation"

def mapAdoptedRepository : AdoptedRepositoryRecord → Except Exn AdoptedRepositoryRecord :=
  mapRow validateAdoptedRepository adoptedRepositoryValue "adopted-repository"

def mapRun : RunRecord → Except Exn RunRecord := mapRow validateRun runValue "run"

def mapIdempotencyKey : IdempotencyKeyRecord → Except Exn IdempotencyKeyRecord :=
  mapRow validateIdempotencyKey idempotencyKeyValue "idempotency-key"

def mapPublication (payloadOk : String → Bool) : PublicationRecord → Except Exn PublicationRecord :=
  mapRow (validatePublication payloadOk) publicationValue "publication"

def mapUsage : UsageRecord → Except Exn UsageRecord := mapRow validateUsage usageValue "usage"

/-- `safeCount` of a time column. -/
def safeTime (x : Number) : Except Exn Number :=
  if isSafeNonNegativeInteger x then .ok x
  else .error (error "postgres backend: bigint value outside the safe integer range")

/-- `safeCount` of a sum; one that leaves `bigint` fails in the statement already. -/
def safeCount (n : Nat) : Except Exn Nat :=
  if n ≤ maxSafe then .ok n
  else .error (error "postgres backend: bigint value outside the safe integer range")

/-! ## SET clauses -/

def setInstallation (new : InstallationRecord) : Update InstallationRecord.installationId where
  set old := { old with
    platform := new.platform
    profileName := new.profileName
    accountLogin := new.accountLogin
    configRef := new.configRef
    updatedAtMs := new.updatedAtMs }
  key_set _ := rfl

def setAdoptedRepository (new : AdoptedRepositoryRecord) : Update repositoryKey where
  set old := { old with
    adoptionEpoch := new.adoptionEpoch
    configFingerprint := new.configFingerprint
    headFingerprint := new.headFingerprint
    enabled := new.enabled
    updatedAtMs := new.updatedAtMs }
  key_set _ := rfl

/-- `TERMINAL_STATES_SQL`. -/
def terminalStatesSql : List JobLifecycleState := [.completed, .failed, .cancelled, .superseded]

def setTransition (target : JobLifecycleState) (patch : RunPatch) (nowMs : Number) (terminal : Bool) :
    Update RunRecord.runId where
  set old := { old with
    state := target
    resultHeadSha := patch.resultHeadSha.getD old.resultHeadSha
    failureReason := patch.failureReason.getD old.failureReason
    supersededByJobId := patch.supersededByJobId.getD old.supersededByJobId
    startedAtMs :=
      if target = .running ∧ (old.startedAtMs == 0) = true then nowMs else old.startedAtMs
    finishedAtMs := if terminalStatesSql.contains target then nowMs else old.finishedAtMs
    leaseOwner := if terminal then "" else old.leaseOwner
    leaseExpiresAtMs := if terminal then 0 else old.leaseExpiresAtMs
    updatedAtMs := nowMs }
  key_set _ := rfl

def setIdempotencyKey (new : IdempotencyKeyRecord) : Update IdempotencyKeyRecord.key where
  set old :=
    { old with binding := new.binding, createdAtMs := new.createdAtMs, expiresAtMs := new.expiresAtMs }
  key_set _ := rfl

def setPublication (new : PublicationRecord) : Update PublicationRecord.jobId where
  set old := { old with
    publicationState := new.publicationState
    destination := new.destination
    publicationId := new.publicationId
    attempt := new.attempt
    lastError := new.lastError
    resultHeadSha := new.resultHeadSha
    resultPayload := new.resultPayload
    history := new.history
    updatedAtMs := new.updatedAtMs }
  key_set _ := rfl

def setAttempt (next : PublicationRecord) (atMs : Number) : Update PublicationRecord.jobId where
  set old := { old with
    attempt := next.attempt
    publicationState := next.publicationState
    lastError := next.lastError
    history := next.history
    updatedAtMs := atMs }
  key_set _ := rfl

def setClaim (owner : String) (leaseExpiresAtMs nowMs : Number) : Update RunRecord.runId where
  set old := { old with leaseOwner := owner, leaseExpiresAtMs, updatedAtMs := nowMs }
  key_set _ := rfl

def setHeartbeat (leaseExpiresAtMs nowMs : Number) : Update RunRecord.runId where
  set old := { old with leaseExpiresAtMs, updatedAtMs := nowMs }
  key_set _ := rfl

/-! ## Mutations -/

section

variable (payloadOk : String → Bool) (db : Database)

def putInstallation (record : Value) : Except Exn Database :=
  match validateInstallation record with
  | none => .error (error "put-installation: malformed installation record")
  | some record =>
    .ok { db with installations := db.installations.insertOrUpdate record setInstallation }

def putAdoptedRepository (record : Value) : Except Exn Database :=
  match validateAdoptedRepository record with
  | none => .error (error "put-adopted-repository: malformed adopted-repository record")
  | some record =>
    .ok { db with
      adoptedRepositories := db.adoptedRepositories.insertOrUpdate record setAdoptedRepository }

def createRun (record : Value) : Except Exn Database :=
  match validateRun record with
  | none => .error (error "create-run: malformed run record")
  | some record =>
    match db.runs.insert? record with
    | none => .error (stateConflict "create-run: run id already exists")
    | some runs => .ok { db with runs }

def transitionRun (runId : String) (source target : JobLifecycleState)
    (resultHeadSha failureReason supersededByJobId nowMs : Value) : Except Exn Database := do
  let nowMs ← requireClock "transition-run" "nowMs" nowMs
  if !canTransition source target then
    throw (rangeError ("transition-run: illegal transition " ++ source.name ++ " -> " ++ target.name))
  match validateRunPatch resultHeadSha failureReason supersededByJobId with
  | none => throw (error "transition-run: malformed patch field")
  | some patch =>
    let terminal := target = .completed ∨ target = .failed ∨ target = .cancelled ∨ target = .superseded
    textParameters [runId]
    let hit := fun r : RunRecord => r.runId = runId && r.state = source
    if db.runs.rowCount hit = 0 then
      match db.runs.select fun r => r.runId = runId with
      | [] => throw (stateConflict "transition-run: run not found")
      | row :: _ =>
        throw (stateConflict
          ("transition-run: run is " ++ row.state.name ++ ", expected " ++ source.name))
    else
      return { db with runs := db.runs.updateWhere hit (setTransition target patch nowMs terminal) }

/-- The claim of a key that is stored. -/
def claimStored (record existing : IdempotencyKeyRecord) (nowMs : Number) : Except Exn Database := do
  let storedExpiry ← safeTime existing.expiresAtMs
  if !(storedExpiry == 0) && decide (storedExpiry ≤ nowMs) then
    return { db with
      idempotencyKeys :=
        db.idempotencyKeys.updateWhere (fun r => r.key = record.key) (setIdempotencyKey record) }
  else if existing.binding = record.binding then return db
  else throw (stateConflict "claim-idempotency: key is bound to different work")

def claimIdempotency (key binding nowMs expiresAtMs : Value) : Except Exn Database := do
  let nowMs ← requireClock "claim-idempotency" "nowMs" nowMs
  match (finite? expiresAtMs).filter fun x => decide (0 ≤ x) with
  | none =>
    throw (rangeError ("claim-idempotency: expiresAtMs must be a finite non-negative number, got "
      ++ valueText expiresAtMs))
  | some expiresAtMs =>
    match validateIdempotencyKey (.object [("key", key), ("binding", binding),
        ("createdAtMs", .number nowMs), ("expiresAtMs", .number expiresAtMs)]) with
    | none => throw (error "claim-idempotency: malformed key or binding")
    | some record =>
      match db.idempotencyKeys.select fun r => r.key = record.key with
      | existing :: _ => claimStored db record existing nowMs
      | [] =>
        match db.idempotencyKeys.insertOrNothing record with
        | (1, idempotencyKeys) => return { db with idempotencyKeys }
        | (_, _) =>
          match db.idempotencyKeys.select fun r => r.key = record.key with
          | [] => throw (stateConflict "claim-idempotency: key vanished mid-claim")
          | raced :: _ => claimStored db record raced nowMs

def releaseIdempotency (key binding nowMs : Value) : Except Exn Database := do
  let nowMs ← requireClock "release-idempotency" "nowMs" nowMs
  match key.string?.filter (· ≠ "") with
  | none => throw (error "release-idempotency: malformed key")
  | some key =>
    match binding.string?.filter (· ≠ "") with
    | none => throw (error "release-idempotency: malformed binding")
    | some binding =>
      textParameters [key, binding]
      let own := fun r : IdempotencyKeyRecord => r.key = key && r.binding = binding
      if 0 < db.idempotencyKeys.rowCount own then
        return { db with idempotencyKeys := db.idempotencyKeys.deleteWhere own }
      match db.idempotencyKeys.select fun r => r.key = key with
      | [] => return db
      | existing :: _ =>
        let storedExpiry ← safeTime existing.expiresAtMs
        if existing.binding = binding then
          return { db with idempotencyKeys := db.idempotencyKeys.deleteWhere own }
        if !(storedExpiry == 0) && decide (storedExpiry ≤ nowMs) then
          return { db with
            idempotencyKeys :=
              db.idempotencyKeys.deleteWhere fun r => r.key = key && decide (r.expiresAtMs ≤ nowMs) }
        throw (stateConflict "release-idempotency: key is bound to different work")

def putPublication (record : Value) : Except Exn Database :=
  match validatePublication payloadOk record with
  | none => .error (error "put-publication: malformed publication record")
  | some record =>
    .ok { db with publications := db.publications.insertOrUpdate record setPublication }

def recordPublicationAttempt (jobId : String) (atMs outcome detail : Value) : Except Exn Database := do
  let atMs ← requireClock "record-publication-attempt" "atMs" atMs
  match outcome? outcome with
  | none => throw (rangeError ("record-publication-attempt: unknown outcome " ++ valueText outcome))
  | some _ =>
    textParameters [jobId]
    let named := fun r : PublicationRecord => decide (r.jobId = jobId)
    match db.publications.select named with
    | [] => throw (stateConflict "record-publication-attempt: publication not found")
    | row :: _ =>
      let record ← mapPublication payloadOk row
      match validatePublicationHistoryEntry
          (.object [("atMs", .number atMs), ("outcome", outcome), ("detail", detail)]) with
      | none => throw (error "record-publication-attempt: malformed history entry")
      | some entry =>
        match validatePublication payloadOk (publicationValue (attempted record entry)) with
        | none => throw (error "record-publication-attempt: next record failed validation")
        | some next =>
          return { db with publications := db.publications.updateWhere named (setAttempt next atMs) }

def recordUsage (entry : Value) : Except Exn Database :=
  match validateUsage entry with
  | none => .error (error "record-usage: malformed usage record")
  | some entry =>
    match db.usage.insertOrNothing entry with
    | (1, usage) => .ok { db with usage }
    | (_, _) =>
      match db.usage.select fun r => r.usageId = entry.usageId with
      -- `existing.rows[0]!` of no row: the mapper reads a field of `undefined`
      | [] => .error ⟨"TypeError", "Cannot read properties of undefined"⟩
      | row :: _ => do
        let stored ← mapUsage row
        if stored = entry then return db
        else throw (stateConflict "record-usage: usage id reused with different content")

def applyMutation : StateMutation → Except Exn Database
  | .putInstallation record => putInstallation db record
  | .putAdoptedRepository record => putAdoptedRepository db record
  | .createRun record => createRun db record
  | .transitionRun runId source target resultHeadSha failureReason supersededByJobId nowMs =>
    transitionRun db runId source target resultHeadSha failureReason supersededByJobId nowMs
  | .claimIdempotency key binding nowMs expiresAtMs => claimIdempotency db key binding nowMs expiresAtMs
  | .releaseIdempotency key binding nowMs => releaseIdempotency db key binding nowMs
  | .putPublication record => putPublication payloadOk db record
  | .recordPublicationAttempt jobId atMs outcome detail =>
    recordPublicationAttempt payloadOk db jobId atMs outcome detail
  | .recordUsage entry => recordUsage db entry
  | .unknownKind => .error (error "apply: unknown mutation kind")

/-! ## Leases -/

def claimRun (runId owner : String) (nowMs ttlMs : Number) : Except Exn (Bool × Database) := do
  let leaseExpiresAtMs ← checkLease "claimRun" owner nowMs ttlMs
  textParameters [runId]
  let hit := fun r : RunRecord => r.runId = runId && (!terminalStatesSql.contains r.state &&
    (r.leaseOwner = "" || r.leaseOwner = owner || decide (r.leaseExpiresAtMs ≤ nowMs)))
  return (db.runs.rowCount hit = 1,
    { db with runs := db.runs.updateWhere hit (setClaim owner leaseExpiresAtMs nowMs) })

def heartbeatRun (runId owner : String) (nowMs ttlMs : Number) : Except Exn (Bool × Database) := do
  let leaseExpiresAtMs ← checkLease "heartbeatRun" owner nowMs ttlMs
  textParameters [runId]
  let hit := fun r : RunRecord => r.runId = runId && (r.leaseOwner = owner &&
    decide (nowMs < r.leaseExpiresAtMs) && !terminalStatesSql.contains r.state)
  return (db.runs.rowCount hit = 1,
    { db with runs := db.runs.updateWhere hit (setHeartbeat leaseExpiresAtMs nowMs) })

/-! ## Calls -/

def perform : StoreCall → Except Exn (Bool × Database)
  | .apply batch => (batch.foldlM (applyMutation payloadOk) db).map fun db => (true, db)
  | .claimRun runId owner nowMs ttlMs => claimRun db runId owner nowMs ttlMs
  | .heartbeatRun runId owner nowMs ttlMs => heartbeatRun db runId owner nowMs ttlMs

/-- The database after a call; one that throws is rolled back. -/
def step (call : StoreCall) : Database :=
  match perform payloadOk db call with
  | .ok (_, db) => db
  | .error _ => db

/-! ## Reads -/

/-- The row of a query on the key, through its mapper. -/
def readRow {ρ : Type} (texts : List String) (rows : List ρ) (mapper : ρ → Except Exn ρ) :
    Except Exn (Option ρ) := do
  textParameters texts
  match rows with
  | [] => return none
  | row :: _ => return some (← mapper row)

def getInstallation (installationId : String) : Except Exn (Option InstallationRecord) :=
  readRow [installationId] (db.installations.select fun r => r.installationId = installationId)
    mapInstallation

def getAdoptedRepository (platform : JobPlatform) (installationId repoFullName : String) :
    Except Exn (Option AdoptedRepositoryRecord) :=
  readRow [installationId, repoFullName]
    (db.adoptedRepositories.select fun r => r.platform = platform && r.installationId = installationId &&
      r.repoFullName = repoFullName)
    mapAdoptedRepository

def getRun (runId : String) : Except Exn (Option RunRecord) :=
  readRow [runId] (db.runs.select fun r => r.runId = runId) mapRun

def getPublication (jobId : String) : Except Exn (Option PublicationRecord) :=
  readRow [jobId] (db.publications.select fun r => r.jobId = jobId) (mapPublication payloadOk)

def getIdempotencyKey (key : String) : Except Exn (Option IdempotencyKeyRecord) :=
  readRow [key] (db.idempotencyKeys.select fun r => r.key = key) mapIdempotencyKey

/-- `min(cost_provenance)`, in the order of the names. -/
def firstProvenance (provenances : List UsageCostProvenance) : Option UsageCostProvenance :=
  provenances.foldl (fun least p =>
    match least with
    | none => some p
    | some q => if strLt p.name q.name then some p else some q) none

/-- The sums of one group. -/
def bucket (entries : List UsageRecord) : Except Exn UsageTotals := do
  let count := fun field : UsageRecord → Nat => safeCount (entries.map field).sum
  let provenances := entries.map (·.costProvenance)
  return {
    requestCount := ← count (·.requestCount)
    inputTokens := ← count (·.inputTokens)
    cacheReadTokens := ← count (·.cacheReadTokens)
    cacheWriteTokens := ← count (·.cacheWriteTokens)
    outputTokens := ← count (·.outputTokens)
    costMicros := ← count (·.costMicros)
    costProvenance :=
      if 1 < provenances.dedup.length then .mixed
      else .source ((firstProvenance provenances).getD .unknown) }

/-- `GROUP BY GROUPING SETS ((route, role), ())`: a row for each group, and the totals. -/
def aggregateUsage : Except Exn UsageAggregate := do
  let groups := (db.usage.rows.map fun e => (e.route, e.role)).dedup
  let rows ← groups.mapM fun (route, role) => do
    let sums ← bucket (db.usage.select fun e => e.route = route && e.role = role)
    return { sums with route, role := role.name : UsageAggregateRow }
  return { rows, totals := ← bucket db.usage.rows }

def exportState : Except Exn StateExport := do
  return {
    installations := ← db.installations.rows.mapM mapInstallation
    adoptedRepositories := ← db.adoptedRepositories.rows.mapM mapAdoptedRepository
    runs := ← db.runs.rows.mapM mapRun
    idempotencyKeys := ← db.idempotencyKeys.rows.mapM mapIdempotencyKey
    publications := ← db.publications.rows.mapM (mapPublication payloadOk)
    usage := ← db.usage.rows.mapM mapUsage }

end

end PrReviewer.State.Postgres
