import PrReviewer.Js.Machine
import PrReviewer.State.Store

/-!
# The durable generation ledger

`ControlPlaneGenerationLedger` of `src/controller/daemon.ts`, for any number of controllers over one control-plane
store.

- A call stops at each of its store calls (`Phase`). What the store does with it and the answer are one step
  (`Event.store`), what the call does with the answer another (`Event.resume`), so that the steps of all calls of
  all controllers come in any order.
- A store call may fail in front of its effect or behind it (`Delivery`).
- `randomUUID` is a parameter: the token that the n-th call draws, if it draws one. The log holds what happened at
  the store and what the calls answered.
-/

open Js

namespace PrReviewer.Controller.GenerationLedger

open State

/-- `GENERATION_CLAIM_PREFIX + jobId`. -/
def claimKey (jobId : String) : String := "generation:" ++ jobId

/-- `GENERATION_CLAIM_BINDING#token`. -/
def bindingOf (token : String) : String := "review-generation#" ++ token

def claimMutation (ttlMs : Number) (jobId token : String) (nowMs : Number) : StateMutation :=
  .claimIdempotency (.string (claimKey jobId)) (.string (bindingOf token)) (.number nowMs) (.number (nowMs + ttlMs))

def releaseMutation (jobId token : String) (nowMs : Number) : StateMutation :=
  .releaseIdempotency (.string (claimKey jobId)) (.string (bindingOf token)) (.number nowMs)

/-- How a store call fares. -/
inductive Delivery where
  | answered
  /-- It took effect, and its answer was lost. -/
  | answerLost
  /-- It did not reach the store. -/
  | requestLost
  deriving DecidableEq, Repr

/-- The error of a store call whose answer did not arrive. -/
def transportError : Exn := ⟨"Error", "connection terminated"⟩

inductive Phase where
  | claiming (nowMs : Number)
  | claimAnswered (answer : Except Exn Unit)
  | readingBack (thrown : Exn)
  | readBack (thrown : Exn) (stored : Option IdempotencyKeyRecord)
  | releasing (token : String) (nowMs : Number)
  | releaseAnswered (answer : Except Exn Unit)
  /-- What the call returned or threw; a removal returns `false`. -/
  | ended (result : Except Exn Bool)

structure Call where
  controller : Nat
  jobId : String
  phase : Phase

/-- A claim that has reached the store, with the clock at that moment. Its token is that of the call. -/
structure Claim where
  call : Nat
  controller : Nat
  jobId : String
  /-- The clock reading that the claim carries. -/
  nowMs : Number
  clock : Number
  delivery : Delivery
  deriving DecidableEq

inductive LogEntry where
  /-- The store took the claim. -/
  | stored (claim : Claim)
  /-- The store refused the claim: somebody else owns the generation. -/
  | refused (claim : Claim)
  /-- `remove` was called by a controller that has a token for the job. -/
  | removing (controller : Nat) (jobId : String)
  /-- A release went through, with the record that it found. -/
  | released (jobId token : String) (nowMs : Number) (found : Option IdempotencyKeyRecord)
  /-- What `addIfAbsent` returned. -/
  | returned (call : Nat) (result : Bool)
  deriving DecidableEq

structure System where
  clock : Number
  tables : StateTables
  /-- `claims` of each controller. -/
  claims : Nat → Map String String
  calls : List Call
  log : List LogEntry

inductive Event where
  /-- The clock moves on; a clock that would go back stays. -/
  | time (now : Number)
  | addIfAbsent (controller : Nat) (jobId : String)
  | remove (controller : Nat) (jobId : String)
  /-- The store call of a call fares so. -/
  | store (call : Nat) (delivery : Delivery)
  /-- A call goes on from the answer. -/
  | resume (call : Nat)

section

variable (randomUUID : Nat → String) (ttlMs : Number)

namespace System

variable (s : System)

def setPhase (i : Nat) (call : Call) (phase : Phase) : System := { s with calls := s.calls.set i { call with phase } }

def logged (entries : List LogEntry) : System := { s with log := s.log ++ entries }

/-- The claims of one controller are replaced. -/
def setClaims (controller : Nat) (claims : Map String String) : System :=
  { s with claims := Function.update s.claims controller claims }

/-- Up to the first store call. -/
def addIfAbsent (controller : Nat) (jobId : String) : System :=
  if (s.claims controller).has jobId then
    { s with
      calls := s.calls ++ [⟨controller, jobId, .ended (.ok false)⟩]
      log := s.log ++ [.returned s.calls.length false] }
  else { s with calls := s.calls ++ [⟨controller, jobId, .claiming s.clock⟩] }

def remove (controller : Nat) (jobId : String) : System :=
  match (s.claims controller).get? jobId with
  | none => { s with calls := s.calls ++ [⟨controller, jobId, .ended (.ok false)⟩] }
  | some token =>
    { s with
      calls := s.calls ++ [⟨controller, jobId, .releasing token s.clock⟩]
      log := s.log ++ [.removing controller jobId] }

/-- The answer that arrives. -/
def arrived {α : Type} (delivery : Delivery) (answer : Except Exn α) : Except Exn α :=
  if delivery = .answered then answer else .error transportError

/-- The claim of a call at the store. -/
def storeClaim (i : Nat) (call : Call) (nowMs : Number) (delivery : Delivery) : System :=
  if delivery = .requestLost then s.setPhase i call (.claimAnswered (.error transportError))
  else
    let claim : Claim := ⟨i, call.controller, call.jobId, nowMs, s.clock, delivery⟩
    match applyBatch (fun _ => true) s.tables [claimMutation ttlMs call.jobId (randomUUID i) nowMs] with
    | .ok tables =>
      ({ s with tables }.setPhase i call (.claimAnswered (arrived delivery (.ok ())))).logged [.stored claim]
    | .error e =>
      (s.setPhase i call (.claimAnswered (arrived delivery (.error e)))).logged
        (if e.name = "StateConflictError" then [.refused claim] else [])

/-- The release of a call at the store. -/
def storeRelease (i : Nat) (call : Call) (token : String) (nowMs : Number) (delivery : Delivery) : System :=
  if delivery = .requestLost then s.setPhase i call (.releaseAnswered (.error transportError))
  else
    match applyBatch (fun _ => true) s.tables [releaseMutation call.jobId token nowMs] with
    | .ok tables =>
      ({ s with tables }.setPhase i call (.releaseAnswered (arrived delivery (.ok ())))).logged
        [.released call.jobId token nowMs (getIdempotencyKey s.tables (claimKey call.jobId))]
    | .error e => s.setPhase i call (.releaseAnswered (arrived delivery (.error e)))

/-- The read that proves a claim; one that fails reads as `null`. -/
def storeRead (i : Nat) (call : Call) (thrown : Exn) (delivery : Delivery) : System :=
  s.setPhase i call (.readBack thrown
    (if delivery = .answered then getIdempotencyKey s.tables (claimKey call.jobId) else none))

/-- `addIfAbsent` answers. -/
def answer (i : Nat) (call : Call) (result : Bool) : System :=
  (s.setPhase i call (.ended (.ok result))).logged [.returned i result]

/-- `addIfAbsent` has the reservation. -/
def own (i : Nat) (call : Call) : System :=
  (s.setClaims call.controller ((s.claims call.controller).set call.jobId (randomUUID i))).answer i call true

/-- The token is spent, or somebody else owns the claim. -/
def forget (i : Nat) (call : Call) : System :=
  (s.setClaims call.controller ((s.claims call.controller).delete call.jobId)).setPhase i call (.ended (.ok false))

def store (i : Nat) (delivery : Delivery) : System :=
  match s.calls[i]? with
  | none => s
  | some call =>
    match call.phase with
    | .claiming nowMs => s.storeClaim randomUUID ttlMs i call nowMs delivery
    | .readingBack thrown => s.storeRead i call thrown delivery
    | .releasing token nowMs => s.storeRelease i call token nowMs delivery
    | _ => s

def resume (i : Nat) : System :=
  match s.calls[i]? with
  | none => s
  | some call =>
    match call.phase with
    | .claimAnswered (.ok ()) => s.own randomUUID i call
    | .claimAnswered (.error e) =>
      if e.name = "StateConflictError" then s.answer i call false
      else s.setPhase i call (.readingBack e)
    | .readBack thrown none => s.setPhase i call (.ended (.error thrown))
    | .readBack _ (some stored) =>
      if stored.binding ≠ bindingOf (randomUUID i) then s.answer i call false else s.own randomUUID i call
    | .releaseAnswered (.ok ()) => s.forget i call
    | .releaseAnswered (.error e) =>
      if e.name = "StateConflictError" then s.forget i call else s.setPhase i call (.ended (.error e))
    | _ => s

def step : Event → System
  | .time now => if s.clock ≤ now then { s with clock := now } else s
  | .addIfAbsent controller jobId => s.addIfAbsent controller jobId
  | .remove controller jobId => s.remove controller jobId
  | .store i delivery => s.store randomUUID ttlMs i delivery
  | .resume i => s.resume randomUUID i

end System

/-- The system over a store with these tables. -/
def System.boot (clock : Number) (tables : StateTables) : System where
  clock
  tables
  claims := fun _ => .empty
  calls := []
  log := []

end

end PrReviewer.Controller.GenerationLedger
