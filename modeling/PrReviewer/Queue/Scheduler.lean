import PrReviewer.Js.Map
import PrReviewer.Queue.Store

/-!
# The review-queue controller

`ReviewQueueController` of `src/queue/scheduler.ts`, each method as an `Action` on `Controller`. A
method that runs to an `await` is one stretch; what the awaited promise resumes is a stretch of its
own, and the pending promise is an entry of the state:

- `executions`: `executor.start` promises that have not settled (`settle` resumes them);
- `settling`: `settle` calls that wait for `settleCompleted` (`settleDone` resumes them);
- `publishes`: `publisher.publish` promises that have not settled (`publishSettled` resumes them);
- `drains`: `shutdown` calls between two drain passes (`drainStep` resumes them).

`log` holds the external effects, newest first: calls of the two seams, aborts, and the snapshots the
store committed. It is the history of all processes over one store; a restarted process keeps it and
nothing else, and loads `lastSaved`.

The clock is read once in a stretch (`now`). The store may commit, refuse, or commit and then throw
(`StoreOutcome`; the file backend does the last when only the directory sync fails). A refusal for
shape is not an outcome of the store: it is what `parseQueueSnapshot` decides.
-/

open Js

namespace PrReviewer.Queue

/-! ## Configuration and seams -/

/-- The controller's configuration, with the constructor's checks. -/
structure SchedulerOptions where
  maxConcurrent : Nat
  settleWindowMs : Number
  leaseTtlMs : Number
  maxAttempts : Nat
  retryBaseMs : Number
  retryMaxMs : Number
  scopeKeyOf : Option (JobRecord → String)
  scopeLimitOf : Option (String → Nat)
  /-- A publisher is configured. -/
  publisher : Bool
  maxConcurrent_pos : 1 ≤ maxConcurrent
  settleWindow_ok : Number.isInteger settleWindowMs = true ∧ 0 ≤ settleWindowMs
  leaseTtl_ok : leaseTtlMs.isFinite = true ∧ 0 < leaseTtlMs
  maxAttempts_pos : 1 ≤ maxAttempts
  retryBase_ok : Number.isInteger retryBaseMs = true ∧ 0 ≤ retryBaseMs
  retryMax_ok : retryMaxMs.isFinite = true ∧ retryBaseMs ≤ retryMaxMs

inductive OutcomeStatus where
  | completed
  | failed
  | cancelled
  deriving DecidableEq, Repr

/-- What an executor reports. A rejected promise is a `failed` outcome with the error's message. -/
structure ExecutionOutcome where
  status : OutcomeStatus
  resultHeadSha : String
  failureCategory : String
  deriving DecidableEq

inductive EnqueueDisposition where
  | queued
  | duplicate
  | supersededQueued
  | supersededRunning
  deriving DecidableEq, Repr

structure EnqueueResult where
  disposition : EnqueueDisposition
  jobId : String
  deriving DecidableEq

/-- A call to the outside. -/
inductive Effect where
  | start (record : JobRecord)
  | abort (jobId token : String)
  | publish (record : JobRecord)
  | save (snapshot : QueueSnapshot)
  deriving DecidableEq

/-- What the store makes of a commit. -/
inductive StoreOutcome where
  | committed
  | committedThenThrew
  | failed
  deriving DecidableEq

/-! ## State -/

/-- A pending `publisher.publish` call, with what `runPublish` captured. -/
structure PublishCall where
  jobId : String
  token : String
  now : Number
  requireLeaseMatch : Bool
  deriving DecidableEq

/-- The drain-relevant state of an active record. -/
structure DrainPart where
  jobId : String
  state : JobLifecycleState
  attempt : Nat
  nextRetryAtMs : Number
  deriving DecidableEq

abbrev Fingerprint := Nat × List DrainPart

/-- A `shutdown` call between two drain passes. -/
structure Drain where
  start : Number
  budget : Number
  pass : Nat
  previous : Fingerprint
  deriving DecidableEq

/-- The controller object, the promises of its process and the history of effects. -/
structure Controller where
  records : Map String JobRecord
  /-- The token of the dispatch that owns each executor handle. -/
  controllers : Map String String
  publishInFlight : List String
  leaseTokenCounter : Nat
  closed : Bool
  executions : List (String × String)
  settling : List (String × String)
  publishes : List PublishCall
  drains : List Drain
  log : List Effect

abbrev Op := Action Controller

/-- The last committed snapshot (a missing one is empty). -/
def lastSaved : List Effect → QueueSnapshot
  | [] => emptyQueueSnapshot
  | .save s :: _ => s
  | _ :: log => lastSaved log

/-- The records of a snapshot by job id; `none` when a generation comes twice. -/
def recordsOf (s : QueueSnapshot) : Option (Map String JobRecord) :=
  Map.ofEntries? (s.records.map (fun r => (r.job.jobId, r)))

/-- A fresh process over the store: nothing of the old one is left but the history. -/
def boot (log : List Effect) : Controller where
  records := (recordsOf (lastSaved log)).getD Map.empty
  controllers := Map.empty
  publishInFlight := []
  leaseTokenCounter := 0
  closed := false
  executions := []
  settling := []
  publishes := []
  drains := []
  log

/-! ## Elementary actions -/

def setRecord (jobId : String) (r : JobRecord) : Op Unit :=
  modify fun c => { c with records := c.records.set jobId r }

def emit (e : Effect) : Op Unit := modify fun c => { c with log := e :: c.log }

/-- `this.store.save(this.snapshot())`. -/
def save (store : StoreOutcome) : Op Unit := do
  let c ← get
  let snapshot ← Action.lift (parseQueueSnapshot (snapshotValue c.records.values))
  match store with
  | .committed => emit (.save snapshot)
  | .committedThenThrew => do
    emit (.save snapshot)
    throw (error "store.save: directory sync failed")
  | .failed => throw (error "store.save failed")

/-- Abort and forget the executor handle of `jobId`. -/
def abortAndForget (jobId : String) : Op Unit := do
  let c ← get
  match c.controllers.get? jobId with
  | none => pure ()
  | some token =>
    modify fun c =>
      { c with controllers := c.controllers.delete jobId, log := .abort jobId token :: c.log }

/-- Forget the executor handle of `jobId` only when it belongs to the dispatch of `token`. -/
def releaseController (jobId token : String) : Op Unit :=
  modify fun c =>
    if c.controllers.get? jobId = some token then
      { c with controllers := c.controllers.delete jobId }
    else c

/-! ## Queries -/

/-- `other` is a newer non-terminal generation of `record`'s `prKey`; on equal enqueue times the
greater job id is the newer one. -/
def supersedes (record other : JobRecord) : Bool :=
  other.prKey = record.prKey && other.job.jobId ≠ record.job.jobId &&
    !isTerminalState other.state && !decide (other.enqueuedAtMs < record.enqueuedAtMs) &&
    !(other.enqueuedAtMs == record.enqueuedAtMs && !strLt record.job.jobId other.job.jobId)

/-- The newest record so far. -/
def newer (winner : Option JobRecord) (other : JobRecord) : Option JobRecord :=
  match winner with
  | none => some other
  | some w =>
    if w.enqueuedAtMs < other.enqueuedAtMs ||
        (other.enqueuedAtMs == w.enqueuedAtMs && strLt w.job.jobId other.job.jobId) then
      some other
    else some w

/-- The job id of the newest superseding sibling. -/
def findSupersedingSibling (records : Map String JobRecord) (record : JobRecord) : Option String :=
  ((records.values.filter (supersedes record)).foldl newer none).map (·.job.jobId)

/-- The supersession gate of every publish. -/
def mayPublish (records : Map String JobRecord) (record : JobRecord) : Bool :=
  !record.cancelRequested && (findSupersedingSibling records record).isNone

def countActive (records : Map String JobRecord) : Nat := records.count JobRecord.working

def hasActiveFor (records : Map String JobRecord) (prKey : String) : Bool :=
  records.values.any (fun r => r.prKey = prKey && r.blocking)

def SchedulerOptions.scopeKey (o : SchedulerOptions) (record : JobRecord) : String :=
  match o.scopeKeyOf with
  | none => ""
  | some f => f record

def SchedulerOptions.scopeLimit (o : SchedulerOptions) (scopeKey : String) : Nat :=
  match o.scopeLimitOf with
  | none => 0
  | some f => f scopeKey

/-- The records that hold a slot of a scope. -/
def activeInScope (o : SchedulerOptions) (scopeKey : String) (records : Map String JobRecord) : Nat :=
  records.count (fun r => r.blocking && o.scopeKey r = scopeKey)

def scopeFull (o : SchedulerOptions) (records : Map String JobRecord) (record : JobRecord) : Bool :=
  let scopeKey := o.scopeKey record
  if scopeKey = "" then false
  else if o.scopeLimit scopeKey = 0 then false
  else decide (o.scopeLimit scopeKey ≤ activeInScope o scopeKey records)

def publishRetryDelayMs (o : SchedulerOptions) : Number :=
  Number.mathMin (Number.mathMax o.retryBaseMs 0) o.retryMaxMs

def drainFingerprint (records : Map String JobRecord) : Fingerprint :=
  (records.size, records.entries.filterMap fun (jobId, r) =>
    if isActiveState r.state then some ⟨jobId, r.state, r.attempt, r.nextRetryAtMs⟩ else none)

/-! ## Supersession -/

/-- A record retired in favour of `superseder`. -/
def retired (record : JobRecord) (superseder : String) (now : Number) : Except Exn JobRecord :=
  (withState record .superseded now).map fun r =>
    { r.unleased with
      failureReason := "superseded-by-newer-head", supersededByJobId := superseder }

/-- The superseder that a retirement names: the one stamped at enqueue, else the live sibling. -/
def superseder (records : Map String JobRecord) (record : JobRecord) : String :=
  if record.supersededByJobId ≠ "" then record.supersededByJobId
  else (findSupersedingSibling records record).getD ""

/-- What an accepted enqueue of `jobId` does to an older generation of its `prKey`. -/
def supersedeExisting (prKey jobId : String) (now : Number) (existing : JobRecord) : Op Unit := do
  let existingId := existing.job.jobId
  if existing.prKey = prKey then
    if existing.state = .queued then do
      let r ← Action.lift (withState existing .superseded now)
      setRecord existingId
        { r with failureReason := "superseded-by-newer-head", supersededByJobId := jobId }
    else if isActiveState existing.state then do
      setRecord existingId { existing with cancelRequested := true, supersededByJobId := jobId }
      let c ← get
      match c.controllers.get? existingId with
      | none => pure ()
      | some token => emit (.abort existingId token)
    else pure ()
  else pure ()

def enqueueDisposition (prKey : String) (records : Map String JobRecord) : EnqueueDisposition :=
  if records.values.any (fun r => r.prKey = prKey && isActiveState r.state) then .supersededRunning
  else if records.values.any (fun r => r.prKey = prKey && r.state = .queued) then .supersededQueued
  else .queued

def enqueue (o : SchedulerOptions) (store : StoreOutcome) (now : Number) (job : Value) :
    Op EnqueueResult := do
  if ((job.get "jobId").string?.getD "") = "" then
    throw (rangeError "enqueue: job.jobId must be a non-empty string")
  else do
    let c ← get
    if c.closed then throw (error "intake closed")
    else
      match validateReviewJob job with
      | none => throw (rangeError "enqueue: job is not a valid ReviewJob")
      | some validatedJob =>
        let jobId := validatedJob.jobId
        if c.records.has jobId then pure ⟨.duplicate, jobId⟩
        else do
          let prKey := prIdentityKey validatedJob
          c.records.values.forM (supersedeExisting prKey jobId now)
          let record ← Action.lift (newJobRecord validatedJob now o.settleWindowMs)
          setRecord jobId record
          save store
          pure ⟨enqueueDisposition prKey c.records, jobId⟩

/-! ## The scheduling pass -/

/-- The lease of a record that has no durable result has run out. -/
def leaseLapsed (record : JobRecord) (now : Number) : Bool :=
  record.blocking &&
    !(decide (record.leaseExpiresAtMs ≤ 0) || decide (now < record.leaseExpiresAtMs))

/-- What lease expiry makes of a record. -/
def lapsedRecord (o : SchedulerOptions) (records : Map String JobRecord) (record : JobRecord)
    (now : Number) : Except Exn JobRecord :=
  if record.attempt < o.maxAttempts then
    match findSupersedingSibling records record with
    | some superseder => retired record superseder now
    | none =>
      (withState record .queued now).map fun r =>
        { r.unleased with readyAtMs := now, nextRetryAtMs := 0, cancelRequested := false }
  else
    (withState record .failed now).map fun r =>
      { r.unleased with failureReason := "lease-expired-attempt-limit" }

def expireLease (o : SchedulerOptions) (now : Number) (entry : String × JobRecord) : Op Unit := do
  let (jobId, record) := entry
  if leaseLapsed record now then do
    abortAndForget jobId
    let c ← get
    let r ← Action.lift (lapsedRecord o c.records record now)
    setRecord jobId r
  else pure ()

def expireLeases (o : SchedulerOptions) (now : Number) : Op Unit := do
  let c ← get
  c.records.entries.forM (expireLease o now)

def expireDeadline (now : Number) (entry : String × JobRecord) : Op Unit := do
  let (jobId, record) := entry
  if !isTerminalState record.state && !record.durable && isExpired record.job now then do
    abortAndForget jobId
    let r ← Action.lift (withState record .cancelled now)
    setRecord jobId { r.unleased with failureReason := "deadline-expired" }
  else pure ()

def expireDeadlines (now : Number) : Op Unit := do
  let c ← get
  c.records.entries.forM (expireDeadline now)

/-- `publisher.publish(record)` is called; its promise is pending. -/
def firePublish (call : PublishCall) (record : JobRecord) : Op Unit :=
  modify fun c => { c with publishes := call :: c.publishes, log := .publish record :: c.log }

/-- The durable result of the record is due for a publish attempt. -/
def publishDue (record : JobRecord) (now : Number) : Bool :=
  record.durable && (record.nextRetryAtMs == 0 || !decide (now < record.nextRetryAtMs))

def retryPublish (now : Number) (entry : String × JobRecord) : Op Unit := do
  let (jobId, record) := entry
  let c ← get
  if publishDue record now && !c.publishInFlight.contains jobId then
    if !mayPublish c.records record then do
      let r ← Action.lift (retired record ((findSupersedingSibling c.records record).getD "") now)
      setRecord jobId r
    else do
      modify fun c => { c with publishInFlight := jobId :: c.publishInFlight }
      firePublish ⟨jobId, "", now, false⟩ record
  else pure ()

def retryPublishes (o : SchedulerOptions) (now : Number) : Op Unit := do
  if o.publisher then do
    let c ← get
    c.records.entries.forM (retryPublish now)
  else pure ()

/-- The lease token of the `n`-th dispatch of a process. -/
def leaseToken (jobId : String) (n : Nat) : String :=
  "lease-" ++ sliceTo 8 jobId ++ "-" ++ toString n

def eligible (now : Number) (record : JobRecord) : Bool :=
  record.state = .queued &&
    (record.readyAtMs == 0 || decide (record.readyAtMs ≤ now)) &&
    (record.nextRetryAtMs == 0 || decide (record.nextRetryAtMs ≤ now))

/-- `a` is dispatched no later than `b`: by enqueue time, then by job id. -/
def dispatchOrder (a b : JobRecord) : Bool :=
  decide (a.enqueuedAtMs < b.enqueuedAtMs) ||
    (!decide (b.enqueuedAtMs < a.enqueuedAtMs) && !strLt b.job.jobId a.job.jobId)

def candidates (now : Number) (records : Map String JobRecord) : List JobRecord :=
  (records.values.filter (eligible now)).insertionSort (fun a b => dispatchOrder a b = true)

/-- A record that an executor now runs. -/
def runningRecord (o : SchedulerOptions) (record : JobRecord) (token : String) (now : Number) :
    Except Exn JobRecord := do
  let starting ← withState record .starting now
  let running ← withState starting .running now
  return { running with
    attempt := record.attempt + 1, leaseOwner := token, leaseExpiresAtMs := now + o.leaseTtlMs }

def start (o : SchedulerOptions) (record : JobRecord) (now : Number) : Op Unit := do
  let jobId := record.job.jobId
  modify fun c => { c with leaseTokenCounter := c.leaseTokenCounter + 1 }
  let c ← get
  let token := leaseToken jobId c.leaseTokenCounter
  let running ← Action.lift (runningRecord o record token now)
  modify fun c =>
    { c with
      records := c.records.set jobId running
      controllers := c.controllers.set jobId token
      executions := (jobId, token) :: c.executions
      log := .start running :: c.log }

def dispatchLoop (o : SchedulerOptions) (now : Number) :
    List String → List JobRecord → Op Unit
  | _, [] => pure ()
  | dispatchedPrKeys, candidate :: rest => do
    let c ← get
    if dispatchedPrKeys.contains candidate.prKey || hasActiveFor c.records candidate.prKey ||
        (findSupersedingSibling c.records candidate).isSome then
      dispatchLoop o now dispatchedPrKeys rest
    else if o.maxConcurrent ≤ countActive c.records then pure ()
    else if scopeFull o c.records candidate then dispatchLoop o now dispatchedPrKeys rest
    else do
      start o candidate now
      dispatchLoop o now (candidate.prKey :: dispatchedPrKeys) rest

def dispatchEligible (o : SchedulerOptions) (now : Number) : Op Unit := do
  let c ← get
  dispatchLoop o now [] (candidates now c.records)

/-- One scheduling pass. -/
def tick (o : SchedulerOptions) (store : StoreOutcome) (now : Number) : Op Unit := do
  expireLeases o now
  expireDeadlines now
  retryPublishes o now
  let c ← get
  if c.closed then pure () else dispatchEligible o now
  save store

/-! ## Settlement -/

/-- `retryBaseMs * 2 ** (attempt - 1)`, capped. -/
def backoffMs (o : SchedulerOptions) (attempt : Nat) : Number :=
  Number.mathMin (o.retryBaseMs * Number.twoPow (attempt - 1)) o.retryMaxMs

/-- What a failed execution makes of its record. -/
def failedRecord (o : SchedulerOptions) (records : Map String JobRecord) (record : JobRecord)
    (outcome : ExecutionOutcome) (now : Number) : Except Exn JobRecord :=
  if record.cancelRequested || (findSupersedingSibling records record).isSome then
    retired record (superseder records record) now
  else if o.maxAttempts ≤ record.attempt then
    (withState record .failed now).map fun r =>
      { r.unleased with
        failureReason :=
          if outcome.failureCategory ≠ "" then outcome.failureCategory else "execution-failed" }
  else
    (withState record .queued now).map fun r =>
      { r.unleased with nextRetryAtMs := now + backoffMs o record.attempt, readyAtMs := now }

/-- What a cancelled execution makes of its record. -/
def cancelledRecord (record : JobRecord) (now : Number) : Except Exn JobRecord :=
  (withState record .cancelled now).map fun r =>
    { r.unleased with
      failureReason :=
        if record.cancelRequested then "cancelled-by-supersession" else "cancelled-shutdown" }

/-- A completed execution: the result becomes durable before its publish is fired. -/
def settleCompleted (o : SchedulerOptions) (store : StoreOutcome) (now : Number)
    (jobId token : String) (record : JobRecord) (outcome : ExecutionOutcome) : Op Unit := do
  let r ← Action.lift (withState record .publishing now)
  let publishing := { r with resultHeadSha := outcome.resultHeadSha }
  setRecord jobId publishing
  let c ← get
  if !mayPublish c.records publishing then do
    let r ← Action.lift (retired publishing (superseder c.records publishing) now)
    setRecord jobId r
  else if !o.publisher then do
    let r ← Action.lift (withState publishing .completed now)
    setRecord jobId r.unleased
  else if c.publishInFlight.contains jobId then pure ()
  else do
    modify fun c => { c with publishInFlight := jobId :: c.publishInFlight }
    save store
    firePublish ⟨jobId, token, now, true⟩ publishing

/-- `settle` up to its `await`: revoked when the record is gone, terminal or under another lease. -/
def settle (o : SchedulerOptions) (store : StoreOutcome) (now : Number) (jobId token : String)
    (outcome : ExecutionOutcome) : Op Unit := do
  let c ← get
  match c.records.get? jobId with
  | none => releaseController jobId token
  | some record =>
    if isTerminalState record.state || record.leaseOwner ≠ token then releaseController jobId token
    else
      match outcome.status with
      | .completed => do
        settleCompleted o store now jobId token record outcome
        modify fun c => { c with settling := (jobId, token) :: c.settling }
      | .failed => do
        let r ← Action.lift (failedRecord o c.records record outcome now)
        setRecord jobId r
        releaseController jobId token
        save store
      | .cancelled => do
        let r ← Action.lift (cancelledRecord record now)
        setRecord jobId r
        releaseController jobId token
        save store

/-- The executor promise of a dispatch settles. -/
def executorSettled (o : SchedulerOptions) (store : StoreOutcome) (now : Number)
    (jobId token : String) (outcome : ExecutionOutcome) : Op Unit := do
  let c ← get
  if (jobId, token) ∈ c.executions then do
    modify fun c => { c with executions := c.executions.erase (jobId, token) }
    settle o store now jobId token outcome
  else pure ()

/-- `settle` after its `await`. -/
def settleDone (store : StoreOutcome) (jobId token : String) : Op Unit := do
  let c ← get
  if (jobId, token) ∈ c.settling then do
    modify fun c => { c with settling := c.settling.erase (jobId, token) }
    releaseController jobId token
    save store
  else pure ()

/-- What a settled publish makes of its record. -/
def publishedRecord (o : SchedulerOptions) (records : Map String JobRecord) (current : JobRecord)
    (published : Bool) (now : Number) : Except Exn JobRecord :=
  if !mayPublish records current then retired current (superseder records current) now
  else if published then
    (withState current .completed now).map fun r => { r.unleased with nextRetryAtMs := 0 }
  else
    .ok { current.unleased with nextRetryAtMs := now + publishRetryDelayMs o, updatedAtMs := now }

/-- A publish promise settles (`false` also for one that was rejected). The rest of `runPublish` uses
the clock reading of the moment it was fired. -/
def publishSettled (o : SchedulerOptions) (store : StoreOutcome) (call : PublishCall)
    (published : Bool) : Op Unit := do
  let c ← get
  if call ∈ c.publishes then do
    modify fun c =>
      { c with
        publishes := c.publishes.erase call
        publishInFlight := c.publishInFlight.filter (fun j => j ≠ call.jobId) }
    match c.records.get? call.jobId with
    | none => pure ()
    | some current =>
      if current.state ≠ .publishing || (call.requireLeaseMatch && current.leaseOwner ≠ call.token)
      then pure ()
      else do
        let r ← Action.lift (publishedRecord o c.records current published call.now)
        setRecord call.jobId r
        save store
  else pure ()

/-! ## Leases held from outside -/

def heartbeat (o : SchedulerOptions) (store : StoreOutcome) (now : Number) (jobId owner : String) :
    Op Bool := do
  let c ← get
  match c.records.get? jobId with
  | none => pure false
  | some record =>
    if !leaseIsValid record owner now then pure false
    else do
      let r ← Action.lift (withRenewedLease record owner now o.leaseTtlMs)
      setRecord jobId r
      save store
      pure true

/-- The record that a recovered outcome or an adoption may apply to: started, and with no executor
handle in this process. -/
def recoverable (c : Controller) (jobId : String) : Option JobRecord :=
  match c.records.get? jobId with
  | none => none
  | some record => if record.working && !c.controllers.has jobId then some record else none

def resolveRecovered (o : SchedulerOptions) (store : StoreOutcome) (now : Number) (jobId : String)
    (outcome : ExecutionOutcome) : Op Bool := do
  let c ← get
  match recoverable c jobId with
  | none => pure false
  | some record =>
    if record.leaseOwner = "" then pure false
    else do
      settle o store now jobId record.leaseOwner outcome
      pure true

def adoptRecovered (o : SchedulerOptions) (store : StoreOutcome) (now : Number)
    (jobId owner : String) : Op Bool := do
  if owner = "" then pure false
  else do
    let c ← get
    match recoverable c jobId with
    | none => pure false
    | some record => do
      let r ← Action.lift (withRenewedLease record owner now o.leaseTtlMs)
      setRecord jobId r
      save store
      pure true

/-! ## Shutdown and recovery -/

def shutdownRecord (now : Number) (entry : String × JobRecord) : Op Unit := do
  let (jobId, record) := entry
  if isActiveState record.state && !record.durable then do
    let r ← Action.lift (withState record .cancelled now)
    setRecord jobId { r.unleased with failureReason := "shutdown" }
  else pure ()

/-- The end of `shutdown`: what still runs is aborted and cancelled. -/
def cancelRemaining (store : StoreOutcome) (now : Number) : Op Unit := do
  let c ← get
  c.controllers.entries.forM (fun (jobId, token) => emit (.abort jobId token))
  modify fun c => { c with controllers := Map.empty }
  c.records.entries.forM (shutdownRecord now)
  save store

/-- One round of the drain loop up to its `await`, or the end of `shutdown`. -/
def drainPass (o : SchedulerOptions) (store : StoreOutcome) (now : Number) (d : Drain) :
    Op Unit := do
  let c ← get
  if d.pass < 128 ∧ countActive c.records ≠ 0 ∧ ¬d.budget ≤ now - d.start then do
    tick o store now
    modify fun c => { c with drains := d :: c.drains }
  else cancelRemaining store now

def shutdown (o : SchedulerOptions) (store : StoreOutcome) (now : Number) (drainMs : Number) :
    Op Unit := do
  modify fun c => { c with closed := true }
  let c ← get
  drainPass o store now {
    start := now
    budget := if drainMs.isFinite ∧ 0 < drainMs then drainMs else 0
    pass := 0
    previous := drainFingerprint c.records }

/-- The drain loop after its microtask flush: a pass without progress is the last one. -/
def drainStep (o : SchedulerOptions) (store : StoreOutcome) (now : Number) (d : Drain) :
    Op Unit := do
  let c ← get
  if d ∈ c.drains then do
    modify fun c => { c with drains := c.drains.erase d }
    let next := drainFingerprint c.records
    if next = d.previous then cancelRemaining store now
    else drainPass o store now { d with pass := d.pass + 1, previous := next }
  else pure ()

/-- Crash recovery: reconcile and adopt the durable snapshot, and persist the result. -/
def recover (o : SchedulerOptions) (store : StoreOutcome) (now : Number) :
    Op (List String × List String) := do
  let c ← get
  let reconciled ← Action.lift (reconcileRecoveredSnapshot (lastSaved c.log) now o.maxAttempts)
  match recordsOf reconciled.snapshot with
  | none => throw (error "queue snapshot: duplicate job id in snapshot")
  | some records => do
    modify fun c => { c with records, controllers := Map.empty }
    save store
    pure (reconciled.requeued, reconciled.failed)

end PrReviewer.Queue
