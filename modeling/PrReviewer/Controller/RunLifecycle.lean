import PrReviewer.Controller.Runtime

/-!
# The mirror of a run's lifecycle

`src/controller/run-lifecycle.ts`: a run record follows the moves of its attempt, each hop a compare-and-swap at the
store. A hop that finds the run in another state ends the mirror.

`path_of_terminal`: from every state that is not terminal the queue's table leads to every terminal one.
-/

open Js

namespace PrReviewer.Controller.Daemon

open Queue (JobLifecycleState ReviewJobKind transitions canTransition isTerminalState)
open State

/-! ## Paths of the transition table -/

/-- The states that have not been seen, each remembered with the state that it comes from. -/
def discover (current : JobLifecycleState) : List JobLifecycleState →
    List (JobLifecycleState × JobLifecycleState) → List JobLifecycleState →
    List (JobLifecycleState × JobLifecycleState) × List JobLifecycleState
  | [], cameFrom, queue => (cameFrom, queue)
  | next :: rest, cameFrom, queue =>
    if (cameFrom.lookup next).isSome then discover current rest cameFrom queue
    else discover current rest ((next, current) :: cameFrom) (queue ++ [next])

/-- The way back to `source`, turned around and without it. -/
def trace (source : JobLifecycleState) (cameFrom : List (JobLifecycleState × JobLifecycleState)) :
    Nat → JobLifecycleState → List JobLifecycleState → List JobLifecycleState
  | 0, _, path => path
  | fuel + 1, cursor, path =>
    if cursor = source then path
    else trace source cameFrom fuel ((cameFrom.lookup cursor).getD source) (cursor :: path)

def search (source target : JobLifecycleState) :
    Nat → List (JobLifecycleState × JobLifecycleState) → List JobLifecycleState → Option (List JobLifecycleState)
  | 0, _, _ => none
  | _, _, [] => none
  | fuel + 1, cameFrom, current :: queue =>
    let (cameFrom, queue) := discover current (transitions current) cameFrom queue
    if (cameFrom.lookup target).isSome then some (trace source cameFrom 8 target [])
    else search source target fuel cameFrom queue

/-- `transitionPath`: the hops of a shortest path. There are eight states, so eight of them are visited at most. -/
def transitionPath (source target : JobLifecycleState) : Option (List JobLifecycleState) :=
  if source = target then some [] else search source target 8 [(source, source)] [source]

theorem path_of_terminal {s t : JobLifecycleState} (hs : isTerminalState s = false) (ht : isTerminalState t = true) :
    ∃ path, transitionPath s t = some path ∧ path.getLast? = some t := by
  cases s <;> cases hs <;> cases t <;> cases ht <;> exact ⟨_, rfl, rfl⟩

/-! ## The mirror -/

/-- A `RunTransitionPatch`; an absent field is `undefined`. -/
structure RunTransitionPatch where
  resultHeadSha : Value := .undefined
  failureReason : Value := .undefined
  supersededByJobId : Value := .undefined

def transitionRun (runId : String) (source target : JobLifecycleState) (patch : RunTransitionPatch) (nowMs : Number) :
    StateMutation :=
  .transitionRun runId source target patch.resultHeadSha patch.failureReason patch.supersededByJobId (.number nowMs)

/-- One hop; `false` when somebody else has moved the run. -/
def hop (mutation : StateMutation) : Program Bool :=
  tryCatch (do
    let _ ← ask (.store (.apply [mutation]))
    return true)
  fun e => if e.name = "StateConflictError" then return false else throw e

/-- The hops of a path, the patch on the last. -/
def walk (runId : String) (last : JobLifecycleState) (patch : RunTransitionPatch) (nowMs : Number) :
    JobLifecycleState → List JobLifecycleState → Program Unit
  | _, [] => pure ()
  | source, step :: path => do
    if ← hop (transitionRun runId source step (if step = last then patch else {}) nowMs) then
      walk runId last patch nowMs step path

def mirrorRunTransition (runId : String) (target : JobLifecycleState) (nowMs : Number)
    (patch : RunTransitionPatch) : Program Unit := do
  match ← ask (.getRun runId) with
  | none => return
  | some run =>
    if isTerminalState run.state then return
    else if run.state = target then return
    else
      match transitionPath run.state target with
      | none => return
      | some path => walk runId target patch nowMs run.state path

/-- `[\u0000-\u001f\u007f]`. -/
def isControl (c : Char) : Bool := c.toNat ≤ 0x1F || c.toNat == 0x7F

/-- Each run of control characters becomes one space; `inRun` says that one has begun. -/
def collapse : Bool → List Char → List Char
  | _, [] => []
  | inRun, c :: cs => if isControl c then (if inRun then [] else [' ']) ++ collapse true cs else c :: collapse false cs

def singleLine (raw : String) : String := trim (String.ofList (collapse false raw.toList))

/-- `boundedDetail` of `publication.ts`. -/
def boundedDetail (value : String) (cap : Nat) : String :=
  let line := singleLine value
  if strLength line ≤ cap then line else sliceTo (cap - 1) line ++ "…"

def runFailureReason (raw fallback : String) : String :=
  let line := singleLine raw
  if line = "" then fallback
  else if strLength line ≤ 256 then line
  else sliceTo 255 line ++ "…"

structure RunAttemptIdentity where
  runId : String
  jobId : String
  kind : ReviewJobKind
  executorIdentity : String
  headSha : String
  configFingerprint : String
  attempt : Nat

/-- A fresh run: `queued`, unleased. -/
def newRunRecord (identity : RunAttemptIdentity) (nowMs : Number) : Except Exn RunRecord :=
  let attempt := Number.ofNat identity.attempt
  if !nowMs.isFinite then .error (rangeError ("nowMs must be a finite number, got " ++ numberToString nowMs))
  else if !isSafeNonNegativeInteger attempt then
    .error (rangeError ("attempt must be a safe non-negative integer, got " ++ numberToString attempt))
  else
    let seeded : RunRecord :=
      { runId := identity.runId, jobId := identity.jobId, kind := identity.kind, state := .queued
        executorIdentity := identity.executorIdentity, attempt, headSha := identity.headSha
        configFingerprint := identity.configFingerprint, leaseOwner := "", leaseExpiresAtMs := 0
        resultHeadSha := "", failureReason := "", supersededByJobId := "", createdAtMs := nowMs
        updatedAtMs := nowMs, startedAtMs := 0, finishedAtMs := 0 }
    if validRun seeded then .ok seeded else .error (rangeError "newRunRecord: input failed record validation")

/-- The record is created and leased; a record that exists is left as it is. -/
def startRunRecord (identity : RunAttemptIdentity) (nowMs : Number) (leaseOwner : String) (leaseTtlMs : Number) :
    Program Unit := do
  let created ← Async.lift (newRunRecord identity nowMs)
  tryCatch (do
    let _ ← ask (.store (.apply [.createRun (runValue created)]))
    let _ ← ask (.store (.claimRun identity.runId leaseOwner nowMs leaseTtlMs))
    return)
    fun e => if e.name = "StateConflictError" then return else throw e

end PrReviewer.Controller.Daemon
