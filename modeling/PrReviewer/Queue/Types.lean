import PrReviewer.Js.Action
import PrReviewer.Js.Value

/-!
# Review jobs and queue records

`ReviewJob` (`src/jobs/types.ts`) is the unit of work, `JobRecord` (`src/queue/types.ts`) its
scheduling wrapper. The lifecycle is the table `transitions`; every state change goes through
`withState`, which throws on a transition the table does not have and on a clock that is not finite
(`withState_ok`).

- **States**: `isActiveState` (holds a worker slot or is about to), `isTerminalState` (never left),
  and `queued`, which is neither. `canTransition_of_terminal`: no transition leaves a terminal state.
-/

open Js

namespace PrReviewer.Queue

/-! ## Jobs -/

inductive ReviewJobKind where
  | review
  | followUp
  deriving DecidableEq, Repr

inductive ReviewTrigger where
  | webhook
  | poll
  | manual
  deriving DecidableEq, Repr

inductive JobPlatform where
  | github
  | forgejo
  deriving DecidableEq, Repr

def ReviewJobKind.name : ReviewJobKind → String
  | .review => "review"
  | .followUp => "follow_up"

def ReviewTrigger.name : ReviewTrigger → String
  | .webhook => "webhook"
  | .poll => "poll"
  | .manual => "manual"

def JobPlatform.name : JobPlatform → String
  | .github => "github"
  | .forgejo => "forgejo"

/-- One immutable unit of review work. -/
structure ReviewJob where
  jobId : String
  kind : ReviewJobKind
  trigger : ReviewTrigger
  reason : String
  platform : JobPlatform
  installationId : String
  repoFullName : String
  prNumber : Number
  prId : Number
  headSha : String
  baseSha : String
  configFingerprint : String
  nonce : String
  adoptionEpoch : String
  eventReference : String
  forgeIntegration : String
  fork : Bool
  deadlineAtMs : Number
  runId : String
  deriving DecidableEq

/-- The deadline has passed. 0 is "no deadline"; a clock that is not finite fails closed. -/
def isExpired (job : ReviewJob) (nowMs : Number) : Bool :=
  if job.deadlineAtMs == 0 then false
  else if !nowMs.isFinite then true
  else decide (job.deadlineAtMs ≤ nowMs)

/-! ## Records -/

inductive JobLifecycleState where
  | queued
  | starting
  | running
  | publishing
  | completed
  | failed
  | cancelled
  | superseded
  deriving DecidableEq, Repr

def JobLifecycleState.name : JobLifecycleState → String
  | .queued => "queued"
  | .starting => "starting"
  | .running => "running"
  | .publishing => "publishing"
  | .completed => "completed"
  | .failed => "failed"
  | .cancelled => "cancelled"
  | .superseded => "superseded"

def isActiveState : JobLifecycleState → Bool
  | .starting | .running | .publishing => true
  | _ => false

def isTerminalState : JobLifecycleState → Bool
  | .completed | .failed | .cancelled | .superseded => true
  | _ => false

/-- Scheduling wrapper around a job. The sentinels `""`, 0 and `false` mean absent. -/
structure JobRecord where
  job : ReviewJob
  prKey : String
  state : JobLifecycleState
  enqueuedAtMs : Number
  readyAtMs : Number
  attempt : Nat
  nextRetryAtMs : Number
  leaseOwner : String
  leaseExpiresAtMs : Number
  cancelRequested : Bool
  resultHeadSha : String
  failureReason : String
  supersededByJobId : String
  updatedAtMs : Number
  deriving DecidableEq

/-- `String(n)` of a safe integer. -/
def intName (n : Number) : String := toString (Number.toNat n)

/-- The identity under which at most one generation is active. -/
def prIdentityKey (job : ReviewJob) : String :=
  job.platform.name ++ "/" ++ job.installationId ++ "/" ++ job.repoFullName ++ "#" ++
    intName job.prNumber ++ "/" ++ job.kind.name

/-- The allowed lifecycle transitions. -/
def transitions : JobLifecycleState → List JobLifecycleState
  | .queued => [.starting, .cancelled, .superseded, .failed]
  | .starting => [.running, .queued, .failed, .cancelled, .superseded]
  | .running => [.publishing, .queued, .failed, .cancelled, .superseded]
  | .publishing => [.completed, .queued, .failed, .cancelled, .superseded]
  | .completed | .failed | .cancelled | .superseded => []

def canTransition (source target : JobLifecycleState) : Bool :=
  (transitions source).contains target

variable {s next : JobLifecycleState} {r r' : JobRecord} {now : Number}

theorem canTransition_of_terminal {t : JobLifecycleState} (h : isTerminalState s = true) :
    canTransition s t = false := by
  cases s <;> simp_all [isTerminalState, canTransition, transitions]

/-- `String(x)` of a number that is not finite. -/
def nonFiniteName (x : Number) : String :=
  if x.isNaN then "NaN" else if 0 ≤ x then "Infinity" else "-Infinity"

def requireFiniteMs (value : Number) (label : String) : Except Exn Unit :=
  if value.isFinite then .ok ()
  else .error (rangeError (label ++ " must be a finite number, got " ++ nonFiniteName value))

/-- A fresh record: `queued` until the settle window has passed. `settleWindowMs` is a non-negative
integer by the constructor of the scheduler's options. -/
def newJobRecord (job : ReviewJob) (nowMs settleWindowMs : Number) : Except Exn JobRecord := do
  requireFiniteMs nowMs "nowMs"
  if !settleWindowMs.isFinite || !Number.isInteger settleWindowMs || !decide (0 ≤ settleWindowMs) then
    throw (rangeError "settleWindowMs must be a finite non-negative integer")
  return {
    job
    prKey := prIdentityKey job
    state := .queued
    enqueuedAtMs := nowMs
    readyAtMs := nowMs + settleWindowMs
    attempt := 0
    nextRetryAtMs := 0
    leaseOwner := ""
    leaseExpiresAtMs := 0
    cancelRequested := false
    resultHeadSha := ""
    failureReason := ""
    supersededByJobId := ""
    updatedAtMs := nowMs }

/-- A state transition: `updatedAtMs` is stamped, every other field is carried over. -/
def withState (record : JobRecord) (next : JobLifecycleState) (nowMs : Number) :
    Except Exn JobRecord := do
  requireFiniteMs nowMs "nowMs"
  if canTransition record.state next then
    return { record with state := next, updatedAtMs := nowMs }
  else
    throw (rangeError
      ("illegal state transition: " ++ record.state.name ++ " -> " ++ next.name))

namespace JobRecord

/-- The record holds its durable result and waits for the publish side effect. -/
def durable (r : JobRecord) : Bool := r.state = .publishing && r.resultHeadSha ≠ ""

/-- The record holds the one slot of its `prKey`. -/
def blocking (r : JobRecord) : Bool := isActiveState r.state && !r.durable

/-- The record holds a worker. -/
def working (r : JobRecord) : Bool := r.state = .starting || r.state = .running

def terminal (r : JobRecord) : Bool := isTerminalState r.state

/-- The record with its lease given back. -/
def unleased (r : JobRecord) : JobRecord := { r with leaseOwner := "", leaseExpiresAtMs := 0 }

end JobRecord

/-! ## States of records -/

theorem isActiveState_of_working (h : r.working = true) :
    isActiveState r.state = true := by
  simp only [JobRecord.working, Bool.or_eq_true, decide_eq_true_eq] at h
  rcases h with h | h <;> rw [h] <;> rfl

/-- The states in which a generation ends without having been published. -/
def isDropState (s : JobLifecycleState) : Bool :=
  s = .failed || s = .cancelled || s = .superseded

theorem terminal_of_isDropState (h : isDropState s = true) :
    isTerminalState s = true := by
  cases s <;> simp_all [isDropState, isTerminalState]

/-- The generation is out of the running: it ended without being completed, or it is active and
stamped by the enqueue of a newer one. -/
def JobRecord.Obsolete (r : JobRecord) : Prop :=
  isDropState r.state = true ∨ isActiveState r.state = true ∧ r.cancelRequested = true

theorem JobRecord.Obsolete.not_queued (h : r.Obsolete) : r.state ≠ .queued := by
  rintro hq
  rcases h with h | ⟨h, -⟩ <;> rw [hq] at h <;> cases h

/-- An active record that is obsolete is stamped. -/
theorem JobRecord.Obsolete.stamped (h : r.Obsolete)
    (ha : isActiveState r.state = true) : r.cancelRequested = true := by
  rcases h with h | ⟨-, h⟩
  · cases hs : r.state <;> simp [hs, isDropState, isActiveState] at h ha
  · exact h

/-! ## What the constructors of records return -/

theorem requireFiniteMs_ok {x : Number} {label : String} {u : Unit}
    (h : requireFiniteMs x label = .ok u) : x.isFinite = true := by
  unfold requireFiniteMs at h
  split at h
  · assumption
  · cases h

theorem withState_ok
    (h : withState r next now = .ok r') :
    now.isFinite = true ∧ canTransition r.state next = true ∧
      r' = { r with state := next, updatedAtMs := now } := by
  unfold withState at h
  cases hf : requireFiniteMs now "nowMs" with
  | error e => rw [hf] at h; cases h
  | ok u =>
    rw [hf] at h
    dsimp only [bind, Except.bind] at h
    split at h
    · next hc =>
      cases h
      exact ⟨requireFiniteMs_ok hf, hc, rfl⟩
    · cases h

/-- Only a record that is not terminal moves. -/
theorem not_terminal_of_withState
    (h : withState r next now = .ok r') : r.terminal = false := by
  obtain ⟨-, hc, -⟩ := withState_ok h
  cases ht : r.terminal with
  | false => rfl
  | true => rw [canTransition_of_terminal ht] at hc; cases hc

theorem newJobRecord_ok {job : ReviewJob} {settle : Number}
    (h : newJobRecord job now settle = .ok r) :
    now.isFinite = true ∧ settle.isFinite = true ∧ 0 ≤ settle ∧
      r = { job, prKey := prIdentityKey job, state := .queued, enqueuedAtMs := now,
            readyAtMs := now + settle, attempt := 0, nextRetryAtMs := 0, leaseOwner := "",
            leaseExpiresAtMs := 0, cancelRequested := false, resultHeadSha := "",
            failureReason := "", supersededByJobId := "", updatedAtMs := now } := by
  unfold newJobRecord at h
  cases hf : requireFiniteMs now "nowMs" with
  | error e => rw [hf] at h; cases h
  | ok u =>
    rw [hf] at h
    dsimp only [bind, Except.bind] at h
    split at h
    · cases h
    · next hs =>
      cases h
      simp only [Bool.or_eq_true, Bool.not_eq_true', not_or, Bool.not_eq_false] at hs
      exact ⟨requireFiniteMs_ok hf, hs.1.1, by simpa using hs.2, rfl⟩

end PrReviewer.Queue
