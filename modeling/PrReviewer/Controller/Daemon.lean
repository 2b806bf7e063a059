import PrReviewer.Controller.Publication

/-!
# The daemon over its store

`createDaemonJobExecutor` and `reconcileRunRecords` of `src/controller/daemon.ts`, and the whole controller: executors
of any attempts, reconciliation passes and calls of the publisher, interleaved at every `await` with each other and with
the moves of the queue.

- `Event.dispatch` is the queue's own start of an attempt: the record moves to `running` with one more attempt, and
  its executor is called. `Event.queue` is any other move of a record.
- `Event.restart` ends the process: nothing that was pending goes on, and the settled runs are forgotten.
- A lease renewal of the executor's timer is an event of its own, which may come at any time.
-/

open Js

namespace PrReviewer.Controller.Daemon

open GenerationLedger (Delivery)
open Queue (JobRecord ExecutionOutcome OutcomeStatus JobLifecycleState canTransition isTerminalState)
open State

structure ExecutorProfile where
  name : String
  kind : String
  kubernetesNamespace : Option String
  deriving DecidableEq

/-- The fields of the daemon's runtime that its code reads. -/
structure Runtime where
  instanceId : String
  leaseTtlMs : Number
  executorProfiles : List ExecutorProfile

/-! ## Reconciliation -/

/-- The terminal run state that a retired record implies, with its reason. -/
def retiredRunState : JobLifecycleState → Option (JobLifecycleState × RunTransitionPatch)
  | .completed => some (.completed, {})
  | .failed => some (.failed, { failureReason := .string "attempt-failed" })
  | .cancelled => some (.cancelled, { failureReason := .string "attempt-cancelled" })
  | .superseded => some (.superseded, { failureReason := .string "superseded-by-newer-head" })
  | .queued => some (.failed, { failureReason := .string "attempt-abandoned" })
  | .starting | .running | .publishing => none

/-- One run: it is mirrored once. -/
def settleOnce (runId : String) (target : JobLifecycleState) (patch : RunTransitionPatch) : Program Unit := do
  if ← ask (.hasSettled runId) then return
  else
    let nowMs ← ask .now
    mirrorRunTransition runId target nowMs patch
    ask (.addSettled runId)

/-- The attempts before the current one, which the queue has given up. -/
def reconcileAbandoned (jobId : String) : List Nat → Program Unit
  | [] => pure ()
  | attempt :: attempts => do
    settleOnce (executionRunId jobId attempt) .failed { failureReason := .string "attempt-abandoned" }
    reconcileAbandoned jobId attempts

def reconcileRecord (record : JobRecord) : Program Unit := do
  if record.attempt = 0 then return
  else
    reconcileAbandoned record.job.jobId (List.range' 1 (record.attempt - 1))
    match retiredRunState record.state with
    | none => return
    | some (target, patch) => settleOnce (executionRunId record.job.jobId record.attempt) target patch

def reconcileRecords : List JobRecord → Program Unit
  | [] => pure ()
  | record :: records => do
    reconcileRecord record
    reconcileRecords records

def reconcileRunRecords : Program Unit := do
  let records ← ask .snapshot
  reconcileRecords records

/-! ## The executor -/

def failedOutcome (e : Exn) : ExecutionOutcome :=
  ⟨.failed, "", if e.message ≠ "" then e.message else "executor-error"⟩

section

variable (runtime : Runtime)

def executorIdentityOf (profileName : String) : String :=
  match runtime.executorProfiles.find? fun entry => decide (entry.name = profileName) with
  | none => ""
  | some configured =>
    if configured.kind = "kubernetes" then "kubernetes:" ++ configured.kubernetesNamespace.getD "" else configured.kind

def attemptIdentity (record : JobRecord) (request : ExecutionRequest) : RunAttemptIdentity where
  runId := request.runId
  jobId := record.job.jobId
  kind := record.job.kind
  executorIdentity := executorIdentityOf runtime request.executorProfile
  headSha := record.job.headSha
  configFingerprint := record.job.configFingerprint
  attempt := record.attempt

def trackRunStart (record : JobRecord) (request : ExecutionRequest) : Program Unit := do
  let nowMs ← ask .now
  startRunRecord (attemptIdentity runtime record request) nowMs runtime.instanceId runtime.leaseTtlMs

end

/-- The mirror of an attempt's outcome. -/
def settleRunForOutcome (record : JobRecord) (request : ExecutionRequest) (outcome : ExecutionOutcome) :
    Program Unit := do
  let nowMs ← ask .now
  let current ← ask (.recordFor record.job.jobId)
  let stamped := current.filter (·.cancelRequested)
  let supersededByJobId := (stamped.map (·.supersededByJobId)).getD ""
  match outcome.status with
  | .completed => mirrorRunTransition request.runId .publishing nowMs {}
  | .failed =>
    if supersededByJobId ≠ "" then
      mirrorRunTransition request.runId .superseded nowMs
        { supersededByJobId := .string supersededByJobId, failureReason := .string "superseded-by-newer-head" }
    else
      mirrorRunTransition request.runId .failed nowMs
        { failureReason := .string (runFailureReason outcome.failureCategory "execution-failed") }
  | .cancelled =>
    mirrorRunTransition request.runId .cancelled nowMs
      { failureReason := .string (if stamped.isSome then "cancelled-by-supersession" else "cancelled-shutdown") }

/-- The outcome or the error of a call, as a value. -/
def caught {α : Type} (p : Program α) : Program (Except Exn α) :=
  tryCatch (do return .ok (← p)) fun e => return .error e

/-- What `builder.build` resolves outside. -/
def build (record : JobRecord) : Program String := do
  if record.attempt = 0 then
    throw (rangeError ("build: record.attempt must be an integer >= 1, got " ++ toString record.attempt))
  else ask (.build record)

/-- The request that it composes. -/
def requestOf (record : JobRecord) (executorProfile : String) : ExecutionRequest :=
  ⟨record.job.jobId, executionRunId record.job.jobId record.attempt, executorProfile⟩

def failAttempt (record : JobRecord) (request : ExecutionRequest) (category : String) : Program ExecutionOutcome := do
  settleRunForOutcome record request ⟨.failed, "", category⟩
  return ⟨.failed, "", category⟩

/-- The worker has been launched: its report, and what follows from it. -/
def collectOutcome (record : JobRecord) (request : ExecutionRequest) : Program ExecutionOutcome :=
  tryCatch (do
    match ← ask (.collect request) with
    | .error e => failAttempt record request (runFailureReason e.message "invalid-result")
    | .ok validated =>
      if validated.runId ≠ request.runId ∨ validated.jobId ≠ request.jobId then
        failAttempt record request "stale_result"
      else
        let outcome : ExecutionOutcome :=
          ⟨validated.status, if validated.status = .completed then validated.resultHeadSha else "",
            if validated.failureCategory = "" then "executor-error" else validated.failureCategory⟩
        settleRunForOutcome record request outcome
        return outcome)
  fun e => do
    settleRunForOutcome record request ⟨.failed, "", runFailureReason e.message "executor-error"⟩
    throw e

section

variable (runtime : Runtime)

def runAttempt (record : JobRecord) : Program ExecutionOutcome := do
  match ← caught (build record) with
  | .error e => return failedOutcome e
  | .ok executorProfile =>
    let request := requestOf record executorProfile
    trackRunStart runtime record request
    let nowMs ← ask .now
    mirrorRunTransition request.runId .starting nowMs {}
    match ← caught (ask (.launch request)) with
    | .error e =>
      let nowMs ← ask .now
      mirrorRunTransition request.runId .failed nowMs
        { failureReason := .string (runFailureReason e.message "executor-launch-failed") }
      return failedOutcome e
    | .ok _ =>
      let nowMs ← ask .now
      mirrorRunTransition request.runId .running nowMs {}
      collectOutcome record request

/-- `start` of the daemon's executor. -/
def executorStart (record : JobRecord) : Program ExecutionOutcome := do
  let result ← caught (runAttempt runtime record)
  let _ ← ask (.releaseWorkspace record.job.jobId record.attempt)
  Async.lift result

end

/-! ## The controller -/

/-- What a task is a call of. -/
inductive Label where
  | executor (record : JobRecord)
  /-- A pass, with the records of its snapshot and the runs whose executors had not settled when it began. -/
  | pass (records : List JobRecord) (unsettled : List String)
  | publisher (record : JobRecord)
  deriving DecidableEq

def runIdOf (record : JobRecord) : String := executionRunId record.job.jobId record.attempt

/-- The run of an executor. -/
def Label.run? : Label → Option String
  | .executor record => some (runIdOf record)
  | _ => none

/-- The job of a call of the publisher. -/
def Label.published? : Label → Option String
  | .publisher record => some record.job.jobId
  | _ => none

inductive Settlement where
  | executed (outcome : ExecutionOutcome)
  | reconciled
  | published (settles : Bool)
  deriving DecidableEq

abbrev System := Tasks Call Reply Label (Except Exn Settlement × Unit) World

inductive Event where
  | time (now : Number)
  /-- A new record, or a move of a record that starts nothing. -/
  | queue (record : JobRecord)
  /-- A terminal record is compacted away. -/
  | forget (jobId : String)
  | dispatch (jobId : String)
  | reconcile
  | publish (record : JobRecord)
  | renew (runId : String) (delivery : Delivery)
  | resume (task : Nat) (outside : Outside)
  | restart

/-- The queue may replace the record `old` by `new` without starting an attempt. -/
def moves (old new : JobRecord) : Bool :=
  decide (new.job = old.job) && new.attempt == old.attempt &&
    (decide (new.state = old.state) ||
      canTransition old.state new.state && !(new.state = .starting || old.state = .starting))

/-- The records with `record` in the place of that of its job, or behind the others. -/
def replaceRecord (record : JobRecord) : List JobRecord → List JobRecord
  | [] => [record]
  | old :: records => if old.job.jobId = record.job.jobId then record :: records else old :: replaceRecord record records

def recordFor (records : List JobRecord) (jobId : String) : Option JobRecord :=
  records.find? fun r => decide (r.job.jobId = jobId)

namespace System

variable (payloadOk : String → Bool) (runtime : Runtime) (stringify : Value → String) (secretShaped : String → Bool)
  (toLowerCase : String → String)

def setRecords (s : System) (records : List JobRecord) : System := { s with shared := { s.shared with records } }

/-- A task begins. -/
def spawn {α : Type} (s : System) (label : Label) (p : Program α) (settled : α → Settlement) : System :=
  s.start (World.serve payloadOk) sync label ((settled <$> p) ()) {}

/-- The runs whose executors have not settled. -/
def unsettled (s : System) : List String := s.tasks.filterMap fun t => t.next?.bind fun _ => t.label.run?

/-- A call of the publisher for a job is pending. -/
def publishing (s : System) (jobId : String) : Bool :=
  s.tasks.any fun t => t.label.published? = some jobId && t.next?.isSome

def queue (s : System) (record : JobRecord) : System :=
  match Daemon.recordFor s.shared.records record.job.jobId with
  | none => if record.state = .queued ∧ record.attempt = 0 then s.setRecords (replaceRecord record s.shared.records) else s
  | some old => if moves old record then s.setRecords (replaceRecord record s.shared.records) else s

def dispatch (s : System) (jobId : String) : System :=
  match Daemon.recordFor s.shared.records jobId with
  | none => s
  | some record =>
    if record.state = .queued then
      let running := { record with state := .running, attempt := record.attempt + 1 }
      (s.setRecords (replaceRecord running s.shared.records)).spawn payloadOk (.executor running)
        (executorStart runtime running) .executed
    else s

def step (s : System) : Event → System
  | .time now => { s with shared := { s.shared with clock := now } }
  | .queue record => s.queue record
  | .forget jobId =>
    s.setRecords (s.shared.records.filter fun r => !(decide (r.job.jobId = jobId) && isTerminalState r.state))
  | .dispatch jobId => s.dispatch payloadOk runtime jobId
  | .reconcile => s.spawn payloadOk (.pass s.shared.records s.unsettled) reconcileRunRecords fun _ => .reconciled
  | .publish record =>
    if s.publishing record.job.jobId then s
    else s.spawn payloadOk (.publisher record) (publish stringify secretShaped toLowerCase record) .published
  | .renew runId delivery =>
    { s with shared := (s.shared.write payloadOk
        (.heartbeatRun runId runtime.instanceId s.shared.clock runtime.leaseTtlMs) delivery).2 }
  | .resume task outside => s.resume (World.serve payloadOk) sync task outside
  | .restart => { s.kill with shared := { s.shared with settledRuns := [] } }

/-- The controller over a store with these tables. -/
def boot (clock : Number) (tables : StateTables) : System := ⟨⟨clock, tables, [], []⟩, []⟩

end System

end PrReviewer.Controller.Daemon
