import PrReviewer.Js.Map
import PrReviewer.Js.Lines
import PrReviewer.Js.Text
import PrReviewer.State.Records

/-!
# The in-memory control-plane store

`src/state/store.ts`. A batch of mutations works on a copy of the tables that is committed when every
mutation went through, so a call that throws leaves the tables as they were: an operation takes the tables
and returns the new ones, or throws (`Except`).

- A field of a mutation that the store checks at run time is a `Value`; the others have the declared type.
- `parseStateExport` reads an export through the validators of the records; `seedControlPlaneStore` builds
  the tables from it.
-/

open Js

namespace PrReviewer.State

open Queue (JobPlatform JobLifecycleState canTransition isTerminalState)

def stateConflict (message : String) : Exn := ⟨"StateConflictError", message⟩

/-! ## Mutations -/

inductive StateMutation where
  | putInstallation (record : Value)
  | putAdoptedRepository (record : Value)
  | createRun (record : Value)
  /-- `resultHeadSha`, `failureReason` and `supersededByJobId` are the fields of the patch. -/
  | transitionRun (runId : String) (source target : JobLifecycleState)
      (resultHeadSha failureReason supersededByJobId : Value) (nowMs : Value)
  | claimIdempotency (key binding : Value) (nowMs expiresAtMs : Value)
  | releaseIdempotency (key binding : Value) (nowMs : Value)
  | putPublication (record : Value)
  | recordPublicationAttempt (jobId : String) (atMs outcome detail : Value)
  | recordUsage (entry : Value)
  /-- A mutation of any other kind. -/
  | unknownKind

structure StateTables where
  installations : Map String InstallationRecord
  adoptedRepositories : Map String AdoptedRepositoryRecord
  runs : Map String RunRecord
  idempotencyKeys : Map String IdempotencyKeyRecord
  publications : Map String PublicationRecord
  usage : Map String UsageRecord

/-- The tables of a store without a seed. -/
def StateTables.empty : StateTables := ⟨.empty, .empty, .empty, .empty, .empty, .empty⟩

def adoptedRepositoryKey (platform : JobPlatform) (installationId repoFullName : String) : String :=
  platform.name ++ "/" ++ installationId ++ "/" ++ repoFullName

def AdoptedRepositoryRecord.identity (r : AdoptedRepositoryRecord) : String :=
  adoptedRepositoryKey r.platform r.installationId r.repoFullName

/-- `typeof value === "number" && Number.isFinite(value)`, with the number. -/
def finite? (value : Value) : Option Number := value.number?.filter (·.isFinite)

/-- `String(value)` of a value that is no array or object. -/
def valueText : Value → String
  | .undefined => "undefined"
  | .null => "null"
  | .bool b => if b then "true" else "false"
  | .number x => numberToString x
  | .count n => toString n
  | .string s => s
  | .array _ => ""
  | .object _ => "[object Object]"

/-- The clock a mutation carries. -/
def requireClock (mutation field : String) (value : Value) : Except Exn Number :=
  match finite? value with
  | some x => .ok x
  | none => .error (rangeError (mutation ++ ": " ++ field ++ " must be finite, got " ++ valueText value))

/-- A run after the transition to `target`. -/
def transitioned (current : RunRecord) (target : JobLifecycleState) (patch : RunPatch)
    (nowMs : Number) : RunRecord :=
  let terminal := isTerminalState target
  { current with
    state := target
    resultHeadSha := patch.resultHeadSha.getD current.resultHeadSha
    failureReason := patch.failureReason.getD current.failureReason
    supersededByJobId := patch.supersededByJobId.getD current.supersededByJobId
    leaseOwner := if terminal then "" else current.leaseOwner
    leaseExpiresAtMs := if terminal then 0 else current.leaseExpiresAtMs
    startedAtMs :=
      if target = .running ∧ (current.startedAtMs == 0) = true then nowMs else current.startedAtMs
    finishedAtMs := if terminal then nowMs else current.finishedAtMs
    updatedAtMs := nowMs }

/-- The key has expired; 0 is "never". -/
def IdempotencyKeyRecord.expired (r : IdempotencyKeyRecord) (nowMs : Number) : Bool :=
  !(r.expiresAtMs == 0) && decide (r.expiresAtMs ≤ nowMs)

/-- The publication after an attempt, its history cut to the newest entries. -/
def attempted (current : PublicationRecord) (entry : PublicationHistoryEntry) : PublicationRecord :=
  let history := current.history ++ [entry]
  { current with
    attempt := current.attempt + 1
    publicationState :=
      match entry.outcome with
      | .published => .published
      | .failed => .failed
      | .attempt => current.publicationState
    lastError := if entry.outcome = .failed then entry.detail else current.lastError
    history := history.drop (history.length - publicationHistoryCap)
    updatedAtMs := entry.atMs }

section

variable (payloadOk : String → Bool)

def applyMutation (tables : StateTables) : StateMutation → Except Exn StateTables
  | .putInstallation record =>
    match validateInstallation record with
    | none => .error (error "put-installation: malformed installation record")
    | some record =>
      .ok { tables with installations := tables.installations.set record.installationId record }
  | .putAdoptedRepository record =>
    match validateAdoptedRepository record with
    | none => .error (error "put-adopted-repository: malformed adopted-repository record")
    | some record =>
      .ok { tables with adoptedRepositories := tables.adoptedRepositories.set record.identity record }
  | .createRun record =>
    match validateRun record with
    | none => .error (error "create-run: malformed run record")
    | some record =>
      if tables.runs.has record.runId then .error (stateConflict "create-run: run id already exists")
      else .ok { tables with runs := tables.runs.set record.runId record }
  | .transitionRun runId source target resultHeadSha failureReason supersededByJobId nowMs => do
    let nowMs ← requireClock "transition-run" "nowMs" nowMs
    if !canTransition source target then
      throw (rangeError
        ("transition-run: illegal transition " ++ source.name ++ " -> " ++ target.name))
    match tables.runs.get? runId with
    | none => throw (stateConflict "transition-run: run not found")
    | some current =>
      if current.state ≠ source then
        throw (stateConflict
          ("transition-run: run is " ++ current.state.name ++ ", expected " ++ source.name))
      match validateRunPatch resultHeadSha failureReason supersededByJobId with
      | none => throw (error "transition-run: malformed patch field")
      | some patch =>
        return { tables with runs := tables.runs.set runId (transitioned current target patch nowMs) }
  | .claimIdempotency key binding nowMs expiresAtMs => do
    let nowMs ← requireClock "claim-idempotency" "nowMs" nowMs
    match (finite? expiresAtMs).filter fun x => decide (0 ≤ x) with
    | none =>
      throw (rangeError ("claim-idempotency: expiresAtMs must be a finite non-negative number, got "
        ++ valueText expiresAtMs))
    | some expiresAtMs =>
      match validateIdempotencyKey (.object [("key", key), ("binding", binding),
          ("createdAtMs", .number nowMs), ("expiresAtMs", .number expiresAtMs)]) with
      | none => throw (error "claim-idempotency: malformed key or binding")
      | some record =>
        let claimed :=
          { tables with idempotencyKeys := tables.idempotencyKeys.set record.key record }
        match tables.idempotencyKeys.get? record.key with
        | none => return claimed
        | some existing =>
          if existing.expired nowMs then return claimed
          else if existing.binding = record.binding then return tables
          else throw (stateConflict "claim-idempotency: key is bound to different work")
  | .releaseIdempotency key binding nowMs => do
    let nowMs ← requireClock "release-idempotency" "nowMs" nowMs
    match key.string?.filter (· ≠ "") with
    | none => throw (error "release-idempotency: malformed key")
    | some key =>
      match binding.string?.filter (· ≠ "") with
      | none => throw (error "release-idempotency: malformed binding")
      | some binding =>
        match tables.idempotencyKeys.get? key with
        | none => return tables
        | some existing =>
          if existing.binding = binding ∨ existing.expired nowMs = true then
            return { tables with idempotencyKeys := tables.idempotencyKeys.delete key }
          else throw (stateConflict "release-idempotency: key is bound to different work")
  | .putPublication record =>
    match validatePublication payloadOk record with
    | none => .error (error "put-publication: malformed publication record")
    | some record => .ok { tables with publications := tables.publications.set record.jobId record }
  | .recordPublicationAttempt jobId atMs outcome detail => do
    let atMs ← requireClock "record-publication-attempt" "atMs" atMs
    match outcome? outcome with
    | none =>
      throw (rangeError ("record-publication-attempt: unknown outcome " ++ valueText outcome))
    | some _ =>
      match tables.publications.get? jobId with
      | none => throw (stateConflict "record-publication-attempt: publication not found")
      | some current =>
        match validatePublicationHistoryEntry
            (.object [("atMs", .number atMs), ("outcome", outcome), ("detail", detail)]) with
        | none => throw (error "record-publication-attempt: malformed history entry")
        | some entry =>
          match validatePublication payloadOk (publicationValue (attempted current entry)) with
          | none => throw (error "record-publication-attempt: next record failed validation")
          | some next =>
            return { tables with publications := tables.publications.set jobId next }
  | .recordUsage entry =>
    match validateUsage entry with
    | none => .error (error "record-usage: malformed usage record")
    | some entry =>
      match tables.usage.get? entry.usageId with
      | none => .ok { tables with usage := tables.usage.set entry.usageId entry }
      | some existing =>
        if existing = entry then .ok tables
        else .error (stateConflict "record-usage: usage id reused with different content")
  | .unknownKind => .error (error "apply: unknown mutation kind")

/-- `apply`: all mutations of the batch, or none. -/
def applyBatch (tables : StateTables) (batch : List StateMutation) : Except Exn StateTables :=
  batch.foldlM (applyMutation payloadOk) tables

end

/-! ## Leases -/

def checkLease (operation owner : String) (nowMs ttlMs : Number) : Except Exn Number :=
  match validateLeaseWindow nowMs ttlMs with
  | none =>
    .error (rangeError (operation ++ ": nowMs/ttlMs must be safe integers with a positive safe-integer "
      ++ "sum, got nowMs=" ++ numberToString nowMs ++ " ttlMs=" ++ numberToString ttlMs))
  | some leaseExpiresAtMs =>
    if !isLeaseOwner owner then
      .error (rangeError
        (operation ++ ": owner must be a non-empty lease-owner token (<= 64 chars)"))
    else .ok leaseExpiresAtMs

/-- The run is leased to somebody else, and the lease is live. -/
def RunRecord.heldByOther (r : RunRecord) (owner : String) (nowMs : Number) : Bool :=
  r.leaseOwner ≠ "" && r.leaseOwner ≠ owner && decide (nowMs < r.leaseExpiresAtMs)

def runLeaseIsLive (r : RunRecord) (owner : String) (nowMs : Number) : Bool :=
  if !nowMs.isFinite then false
  else if owner = "" then false
  else if r.leaseOwner = "" ∨ r.leaseOwner ≠ owner then false
  else if !r.leaseExpiresAtMs.isFinite then false
  else decide (nowMs < r.leaseExpiresAtMs)

/-- `claimRun`: the returned boolean and the tables after the call. -/
def claimRun (tables : StateTables) (runId owner : String) (nowMs ttlMs : Number) :
    Except Exn (Bool × StateTables) := do
  let leaseExpiresAtMs ← checkLease "claimRun" owner nowMs ttlMs
  match tables.runs.get? runId with
  | none => return (false, tables)
  | some current =>
    if isTerminalState current.state then return (false, tables)
    else if current.heldByOther owner nowMs then return (false, tables)
    else
      let claimed := { current with leaseOwner := owner, leaseExpiresAtMs, updatedAtMs := nowMs }
      return (true, { tables with runs := tables.runs.set runId claimed })

def heartbeatRun (tables : StateTables) (runId owner : String) (nowMs ttlMs : Number) :
    Except Exn (Bool × StateTables) := do
  let leaseExpiresAtMs ← checkLease "heartbeatRun" owner nowMs ttlMs
  match tables.runs.get? runId with
  | none => return (false, tables)
  | some current =>
    if isTerminalState current.state then return (false, tables)
    else if !runLeaseIsLive current owner nowMs then return (false, tables)
    else
      let renewed := { current with leaseExpiresAtMs, updatedAtMs := nowMs }
      return (true, { tables with runs := tables.runs.set runId renewed })

/-! ## Calls -/

/-- A call that writes. -/
inductive StoreCall where
  | apply (batch : List StateMutation)
  | claimRun (runId owner : String) (nowMs ttlMs : Number)
  | heartbeatRun (runId owner : String) (nowMs ttlMs : Number)

/-- What a call answers: a batch that went through answers `true`. -/
def perform (payloadOk : String → Bool) (tables : StateTables) :
    StoreCall → Except Exn (Bool × StateTables)
  | .apply batch => (applyBatch payloadOk tables batch).map fun tables => (true, tables)
  | .claimRun runId owner nowMs ttlMs => claimRun tables runId owner nowMs ttlMs
  | .heartbeatRun runId owner nowMs ttlMs => heartbeatRun tables runId owner nowMs ttlMs

/-- The tables after a call; one that throws leaves them. -/
def step (payloadOk : String → Bool) (tables : StateTables) (call : StoreCall) : StateTables :=
  match perform payloadOk tables call with
  | .ok (_, tables) => tables
  | .error _ => tables

/-! ## Reads -/

def getInstallation (t : StateTables) (installationId : String) : Option InstallationRecord :=
  t.installations.get? installationId

def getAdoptedRepository (t : StateTables) (platform : JobPlatform)
    (installationId repoFullName : String) : Option AdoptedRepositoryRecord :=
  t.adoptedRepositories.get? (adoptedRepositoryKey platform installationId repoFullName)

def getRun (t : StateTables) (runId : String) : Option RunRecord := t.runs.get? runId

def getPublication (t : StateTables) (jobId : String) : Option PublicationRecord :=
  t.publications.get? jobId

def getIdempotencyKey (t : StateTables) (key : String) : Option IdempotencyKeyRecord :=
  t.idempotencyKeys.get? key

/-! ## Export -/

structure StateExport where
  installations : List InstallationRecord
  adoptedRepositories : List AdoptedRepositoryRecord
  runs : List RunRecord
  idempotencyKeys : List IdempotencyKeyRecord
  publications : List PublicationRecord
  usage : List UsageRecord

def exportState (t : StateTables) : StateExport :=
  ⟨t.installations.values, t.adoptedRepositories.values, t.runs.values, t.idempotencyKeys.values,
    t.publications.values, t.usage.values⟩

/-- An export as an object. -/
def exportValue (e : StateExport) : Value :=
  .object [
    ("version", .number 1),
    ("installations", .array (e.installations.map installationValue)),
    ("adoptedRepositories", .array (e.adoptedRepositories.map adoptedRepositoryValue)),
    ("runs", .array (e.runs.map runValue)),
    ("idempotencyKeys", .array (e.idempotencyKeys.map idempotencyKeyValue)),
    ("publications", .array (e.publications.map publicationValue)),
    ("usage", .array (e.usage.map usageValue))]

def requireArray (value : Value) (key : String) : Except Exn (List Value) :=
  match value.get key with
  | .array xs => .ok xs
  | _ => .error (error ("control-plane export: \"" ++ key ++ "\" must be an array"))

/-- The records of one table, each accepted by its validator and none with the identity of an earlier
one. -/
def parseRecords {ρ : Type} (validate : Value → Option ρ) (identity : ρ → String)
    (malformed duplicate : String) (seen : List String) : List Value → Except Exn (List ρ)
  | [] => .ok []
  | element :: rest =>
    match validate element with
    | none => .error (error ("control-plane export: malformed " ++ malformed))
    | some record =>
      if seen.contains (identity record) then
        .error (error ("control-plane export: duplicate " ++ duplicate))
      else
        match parseRecords validate identity malformed duplicate (identity record :: seen) rest with
        | .error e => .error e
        | .ok records => .ok (record :: records)

def parseStateExport (payloadOk : String → Bool) (exported : Value) : Except Exn StateExport := do
  match exported with
  | .object _ | .array _ => pure ()
  | _ => throw (error "control-plane export: top-level value must be an object")
  match exported.get "version" with
  | .number v =>
    if !(v == 1) then throw (error "control-plane export: version must be 1")
  | _ => throw (error "control-plane export: version must be 1")
  let installations ← requireArray exported "installations"
  let adoptedRepositories ← requireArray exported "adoptedRepositories"
  let runs ← requireArray exported "runs"
  let idempotencyKeys ← requireArray exported "idempotencyKeys"
  let publications ← requireArray exported "publications"
  let usage ← requireArray exported "usage"
  return {
    installations := ← parseRecords validateInstallation (·.installationId) "installation record"
      "installation id" [] installations
    adoptedRepositories := ← parseRecords validateAdoptedRepository (·.identity)
      "adopted-repository record" "adopted repository" [] adoptedRepositories
    runs := ← parseRecords validateRun (·.runId) "run record" "run id" [] runs
    idempotencyKeys := ← parseRecords validateIdempotencyKey (·.key) "idempotency-key record"
      "idempotency key" [] idempotencyKeys
    publications := ← parseRecords (validatePublication payloadOk) (·.jobId) "publication record"
      "publication job id" [] publications
    usage := ← parseRecords validateUsage (·.usageId) "usage record" "usage id" [] usage }

/-- `new Map(records.map((r) => [identity(r), r]))`. -/
def mapOf {ρ : Type} (identity : ρ → String) (records : List ρ) : Map String ρ :=
  records.foldl (fun m r => m.set (identity r) r) .empty

/-- The tables of the records of an export. -/
def seededTables (e : StateExport) : StateTables where
  installations := mapOf (·.installationId) e.installations
  adoptedRepositories := mapOf (·.identity) e.adoptedRepositories
  runs := mapOf (·.runId) e.runs
  idempotencyKeys := mapOf (·.key) e.idempotencyKeys
  publications := mapOf (·.jobId) e.publications
  usage := mapOf (·.usageId) e.usage

/-- The constructor, which parses its seed. -/
def newStore (payloadOk : String → Bool) (seed : StateExport) : Except Exn StateTables :=
  (parseStateExport payloadOk (exportValue seed)).map seededTables

def seedControlPlaneStore (payloadOk : String → Bool) (exported : Value) : Except Exn StateTables := do
  newStore payloadOk (← parseStateExport payloadOk exported)

end PrReviewer.State
