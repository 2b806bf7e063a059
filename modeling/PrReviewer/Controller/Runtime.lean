import PrReviewer.Controller.GenerationLedger
import PrReviewer.Js.Tasks
import PrReviewer.Queue.Scheduler

/-!
# What the controller's code calls

The daemon's executor, its reconciliation pass and the durable publisher are `async` code over one `World`: the clock,
the control-plane store, the queue's records and the runs that the daemon has settled.

- `Call` is what that code asks for and `Reply` what it is told. `sync` are the calls that it does not `await`.
- `serve` answers a call. A store call may fail in front of its effect or behind it; what the worker, the forge and the
  run directory answer comes with the call (`Outside`).
-/

open Js

namespace PrReviewer.Controller.Daemon

open GenerationLedger (Delivery transportError)
open GenerationLedger.System (arrived)
open Queue (JobRecord ReviewJob ExecutionOutcome OutcomeStatus)
open State

/-- `executionRunId`: the identity of one attempt of a job. -/
def executionRunId (jobId : String) (attempt : Nat) : String := jobId ++ "-a" ++ toString attempt

/-- The fields of an `ExecutionRequest` that the daemon reads. -/
structure ExecutionRequest where
  jobId : String
  runId : String
  executorProfile : String
  deriving DecidableEq

/-- An `ExecutionResult` that `validateExecutionResult` has accepted. -/
structure ExecutionResult where
  runId : String
  jobId : String
  status : OutcomeStatus
  resultHeadSha : String
  resultArtifactPath : String
  failureCategory : String
  deriving DecidableEq

inductive Call where
  | now
  /-- `controller.snapshot().records`. -/
  | snapshot
  | recordFor (jobId : String)
  /-- `settledRuns.has` and `settledRuns.add`. -/
  | hasSettled (runId : String)
  | addSettled (runId : String)
  | getRun (runId : String)
  | getPublication (jobId : String)
  | store (call : StoreCall)
  /-- `builder.build`, up to the profile names. -/
  | build (record : JobRecord)
  | launch (request : ExecutionRequest)
  | collect (request : ExecutionRequest)
  | releaseWorkspace (jobId : String) (attempt : Nat)
  | readExecutionEnvelope (jobId : String) (attempt : Nat)
  | readReviewArtifact (path : String)
  | currentHeadSha (job : ReviewJob)
  | forgePublish (job : ReviewJob) (resultPayload : String)

@[reducible] def Reply : Call → Type
  | .now => Number
  | .snapshot => List JobRecord
  | .recordFor _ => Option JobRecord
  | .hasSettled _ => Bool
  | .addSettled _ => Unit
  | .getRun _ => Option RunRecord
  | .getPublication _ => Option PublicationRecord
  | .store _ => Bool
  | .build _ => String
  | .launch _ => Unit
  | .collect _ => Except Exn ExecutionResult
  | .releaseWorkspace _ _ => Unit
  | .readExecutionEnvelope _ _ => Option ExecutionResult
  | .readReviewArtifact _ => Option Value
  | .currentHeadSha _ => Option String
  | .forgePublish _ _ => String

def sync : Call → Bool
  | .now | .snapshot | .recordFor _ | .hasSettled _ | .addSettled _ => true
  | _ => false

abbrev Program (α : Type) := Async Call Reply Unit α

/-- A call. -/
def ask (c : Call) : Program (Reply c) := Async.call c

/-- What lies outside the controller answers to a call. -/
structure Outside where
  delivery : Delivery := .answered
  /-- The executor profile of the request, or the builder's error. -/
  build : Except Exn String := .ok ""
  launch : Except Exn Unit := .ok ()
  /-- What the worker reported, as `validateExecutionResult` reads it. -/
  collect : Except Exn (Except Exn ExecutionResult) := .error transportError
  release : Except Exn Unit := .ok ()
  /-- The validated envelope of the run directory, if it has one. -/
  envelope : Option ExecutionResult := none
  /-- The JSON of the review artifact, if it can be read. -/
  artifact : Option Value := none
  head : Except Exn (Option String) := .ok none
  /-- The publication id that the forge confirms. -/
  written : Except Exn String := .ok ""

structure World where
  clock : Number
  tables : StateTables
  records : List JobRecord
  settledRuns : List String

namespace World

variable (payloadOk : String → Bool)

/-- A write at the store. -/
def write (c : StoreCall) (delivery : Delivery) (w : World) : Except Exn Bool × World :=
  if delivery = .requestLost then (.error transportError, w)
  else
    match perform payloadOk w.tables c with
    | .ok (answer, tables) => (arrived delivery (.ok answer), { w with tables })
    | .error e => (arrived delivery (.error e), w)

def serve : (c : Call) → Outside → World → Except Exn (Reply c) × World
  | .now, _, w => (.ok w.clock, w)
  | .snapshot, _, w => (.ok w.records, w)
  | .recordFor jobId, _, w => (.ok (w.records.find? fun r => decide (r.job.jobId = jobId)), w)
  | .hasSettled runId, _, w => (.ok (w.settledRuns.contains runId), w)
  | .addSettled runId, _, w => (.ok (), { w with settledRuns := runId :: w.settledRuns })
  | .getRun runId, d, w => (arrived d.delivery (.ok (getRun w.tables runId)), w)
  | .getPublication jobId, d, w => (arrived d.delivery (.ok (getPublication w.tables jobId)), w)
  | .store c, d, w => w.write payloadOk c d.delivery
  | .build _, d, w => (d.build, w)
  | .launch _, d, w => (d.launch, w)
  | .collect _, d, w => (d.collect, w)
  | .releaseWorkspace _ _, d, w => (d.release, w)
  | .readExecutionEnvelope _ _, d, w => (.ok d.envelope, w)
  | .readReviewArtifact _, d, w => (.ok d.artifact, w)
  | .currentHeadSha _, d, w => (d.head, w)
  | .forgePublish _ _, d, w => (d.written, w)

end World

end PrReviewer.Controller.Daemon
