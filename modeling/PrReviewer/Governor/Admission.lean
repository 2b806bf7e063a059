import PrReviewer.Js.Machine
import PrReviewer.Js.Integer

/-!
# The inference governor

`admit` runs a task at once while a slot is free and queues it otherwise. A queued request leaves by
an abort of its signal, by its deadline timer, or by the pump, which runs when a task settles.

- A waiter is an object that its listener, its timer and the queue refer to: `waiters` maps a reference
  (the waiter's `seq`) to the object, and `queue` holds references. References of waiters that do not
  exist yet map to a removed waiter.
- The environment keeps the timers that are armed, the registered abort listeners, the signals that
  have aborted and the tasks that run. An armed timer may fire at any time after it was set.
- `clock` gives the readings of `Date.now()` in the order in which they are made, `reads` of them so
  far. Any sequence is possible, so time may pass between two readings of one loop.
- Tasks return promises: they do not throw when they start, and they do not call the governor or abort
  a signal while they start. A task settles when the reaction that `dispatch` registered on it runs.
- `log` keeps what became of each request, and `drained` what `drainTelemetry` has returned.
-/

open Js

namespace PrReviewer.Governor

inductive GovernorPriority where
  | authoritative
  | requiredPrepass
  | recovery
  | advisory
  deriving DecidableEq

def GovernorPriority.rank : GovernorPriority → Nat
  | .authoritative => 1
  | .requiredPrepass => 2
  | .recovery => 3
  | .advisory => 4

/-- `signal` is the identity of the request's abort signal. -/
structure GovernedRequest where
  priority : GovernorPriority
  endpointKey : String
  signal : Option Nat := none
  deadlineMs : Option Number := none

structure GovernorQueueTelemetry where
  priority : Nat
  endpointKey : String
  queueWaitMs : Number
  activeCount : Nat
  cancelledBeforeDispatch : Bool

/-- `GovernorCancelledError.reason`. -/
inductive CancelReason where
  | cancelled
  | deadline
  deriving DecidableEq

/-- `id` names the request: its task and the promise that `admit` returned. `onAbort` and `timer` say
whether the field is set. -/
structure Waiter where
  seq : Nat
  id : Nat
  priority : GovernorPriority
  request : GovernedRequest
  queuedAtMs : Number
  removed : Bool
  onAbort : Bool
  timer : Bool

/-- What happens to a request, in the order in which it happens. -/
inductive Effect where
  | recorded (id : Nat) (record : GovernorQueueTelemetry)
  | started (id : Nat)
  | settled (id : Nat)
  | rejected (id : Nat) (reason : CancelReason)

def Effect.id : Effect → Nat
  | .recorded id _ | .started id | .settled id | .rejected id _ => id

def Effect.record? : Effect → Option GovernorQueueTelemetry
  | .recorded _ r => some r
  | _ => none

structure RunInferenceGovernor where
  maxConcurrent : Nat
  enabled : Bool
  active : Nat
  queue : List Nat
  records : List GovernorQueueTelemetry
  seq : Nat
  waiters : Nat → Waiter
  clock : Nat → Number
  reads : Nat
  timers : List Nat
  listeners : List (Nat × Nat)
  aborted : List Nat
  running : List Nat
  requests : Nat
  drained : List GovernorQueueTelemetry
  log : List Effect

namespace RunInferenceGovernor

/-- The constructor, in an environment with the clock `clock`. -/
def new (maxConcurrent : Number) (clock : Nat → Number) : RunInferenceGovernor where
  maxConcurrent := maxConcurrent.toNat
  enabled := maxConcurrent.isInteger && decide ((1 : Number) ≤ maxConcurrent)
  active := 0
  queue := []
  records := []
  seq := 0
  waiters := fun w => ⟨w, 0, .advisory, ⟨.advisory, "", none, none⟩, 0, true, false, false⟩
  clock := clock
  reads := 0
  timers := []
  listeners := []
  aborted := []
  running := []
  requests := 0
  drained := []
  log := []

def defaultMaxConcurrentRequests : Number := 2

def createInferenceGovernor (maxConcurrent : Option Number) (clock : Nat → Number) :
    RunInferenceGovernor :=
  new (maxConcurrent.getD defaultMaxConcurrentRequests) clock

example : (createInferenceGovernor none fun _ => 0).enabled = true ∧
    (createInferenceGovernor (some 0) fun _ => 0).enabled = false := by decide +kernel

variable (g : RunInferenceGovernor)

/-! ## Operations -/

/-- The next reading of `Date.now()`. -/
def dateNow : Number := g.clock g.reads

def tick : RunInferenceGovernor := { g with reads := g.reads + 1 }

/-- `this.records.push`, for the request `id`. -/
def push (id : Nat) (record : GovernorQueueTelemetry) : RunInferenceGovernor :=
  { g with records := g.records ++ [record], log := g.log ++ [.recorded id record] }

def reject (id : Nat) (reason : CancelReason) : RunInferenceGovernor :=
  { g with log := g.log ++ [.rejected id reason] }

/-- The object `w` is `x` from now on. -/
def setWaiter (w : Nat) (x : Waiter) : RunInferenceGovernor :=
  { g with waiters := fun v => if v = w then x else g.waiters v }

def setTimeout (w : Nat) : RunInferenceGovernor := { g with timers := g.timers ++ [w] }

def clearTimeout (w : Nat) : RunInferenceGovernor := { g with timers := g.timers.erase w }

def addEventListener (signal w : Nat) : RunInferenceGovernor :=
  { g with listeners := g.listeners ++ [(signal, w)] }

def removeEventListener (signal w : Nat) : RunInferenceGovernor :=
  { g with listeners := g.listeners.erase (signal, w) }

/-- What `cancel` and `pump` do to a waiter that leaves: the `removed` flag, its timer, its listener,
and its place in the queue. -/
def leave (w : Nat) : RunInferenceGovernor :=
  let waiter := g.waiters w
  let g := g.setWaiter w { waiter with removed := true }
  let g := if waiter.timer then g.clearTimeout w else g
  let g :=
    match waiter.onAbort, waiter.request.signal with
    | true, some signal => g.removeEventListener signal w
    | _, _ => g
  { g with queue := g.queue.erase w }

def cancel (w : Nat) (reason : CancelReason) : RunInferenceGovernor :=
  let waiter := g.waiters w
  if waiter.removed then g
  else
    let g := g.leave w
    (g.tick.push waiter.id
      ⟨waiter.priority.rank, waiter.request.endpointKey, g.dateNow - waiter.queuedAtMs, g.active,
        true⟩).reject waiter.id reason

/-- Hold a slot and run the task of the request `id`. -/
def dispatch (id : Nat) (request : GovernedRequest) (queueWaitMs : Number) : RunInferenceGovernor :=
  let g := { g with active := g.active + 1 }
  let g := g.push id ⟨request.priority.rank, request.endpointKey, queueWaitMs, g.active, false⟩
  { g with running := g.running ++ [id], log := g.log ++ [.started id] }

def isAborted : Option Nat → Bool
  | some signal => decide (signal ∈ g.aborted)
  | none => false

def enqueue (id : Nat) (request : GovernedRequest) : RunInferenceGovernor :=
  let w := g.seq + 1
  let waiter : Waiter := ⟨w, id, request.priority, request, g.dateNow, false, false, false⟩
  let g := ({ g with seq := w } : RunInferenceGovernor).tick
  if g.isAborted request.signal then (g.setWaiter w waiter).cancel w .cancelled
  else
    let g :=
      match request.signal with
      | some signal => g.addEventListener signal w
      | none => g
    let g := if request.deadlineMs.isSome then g.setTimeout w else g
    let waiter :=
      { waiter with onAbort := request.signal.isSome, timer := request.deadlineMs.isSome }
    { g.setWaiter w waiter with queue := g.queue ++ [w] }

/-- The source's `admit`, of the request that is `id` from now on. A disabled governor only starts the task. -/
def admitRequest (request : GovernedRequest) : RunInferenceGovernor :=
  let id := g.requests
  let g := { g with requests := id + 1 }
  if !g.enabled then { g with log := g.log ++ [.started id] }
  else if g.isAborted request.signal then
    (g.push id ⟨request.priority.rank, request.endpointKey, 0, g.active, true⟩).reject id .cancelled
  else if g.active < g.maxConcurrent then g.dispatch id request 0
  else g.enqueue id request

def drainTelemetry : RunInferenceGovernor :=
  { g with records := [], drained := g.drained ++ g.records }

/-! ## The pump -/

/-- The deadline of the waiter `w` has passed at the reading `n` of the clock. -/
def expired (n w : Nat) : Bool :=
  match (g.waiters w).request.deadlineMs with
  | some deadlineMs => decide (deadlineMs ≤ g.clock n - (g.waiters w).queuedAtMs)
  | none => false

/-- The clock is read for a waiter that has a deadline. -/
def afterCheck (w : Nat) : RunInferenceGovernor :=
  if (g.waiters w).request.deadlineMs.isSome then g.tick else g

/-- `w` comes before `best`: by priority, then by arrival. -/
def better (w : Nat) : Option Nat → Bool
  | none => true
  | some best =>
    decide ((g.waiters w).priority.rank < (g.waiters best).priority.rank) ||
      (decide ((g.waiters w).priority = (g.waiters best).priority) &&
        decide ((g.waiters w).seq < (g.waiters best).seq))

/-- The loop over the queue from the index `i` on. The iterator of an array keeps an index, so a waiter
that `cancel` takes out of the array moves the rest of it under the index. The first argument bounds the
number of turns; the length of the queue is enough (`scan_enough`). -/
def scan : Nat → Nat → Option Nat → RunInferenceGovernor → Option Nat × RunInferenceGovernor
  | 0, _, best, g => (best, g)
  | n + 1, i, best, g =>
    match g.queue[i]? with
    | none => (best, g)
    | some w =>
      if (g.waiters w).removed then scan n (i + 1) best g
      else if g.expired g.reads w then scan n (i + 1) best ((g.afterCheck w).cancel w .deadline)
      else scan n (i + 1) (if g.better w best then some w else best) (g.afterCheck w)

/-- The waiter `w` leaves the queue and its task starts. -/
def select (w : Nat) : RunInferenceGovernor :=
  let waiter := g.waiters w
  let g := g.leave w
  g.tick.dispatch waiter.id waiter.request (g.dateNow - waiter.queuedAtMs)

/-- The first argument bounds the number of turns; the length of the queue is enough
(`pump_enough`). -/
def pump : Nat → RunInferenceGovernor → RunInferenceGovernor
  | 0, g => g
  | n + 1, g =>
    if g.queue ≠ [] ∧ g.active < g.maxConcurrent then
      match g.scan g.queue.length 0 none with
      | (none, g) => g
      | (some w, g) => pump n (g.select w)
    else g

/-- The reaction to the settlement of the task `id`. -/
def settle (id : Nat) : RunInferenceGovernor :=
  let g := { g with
    running := g.running.erase id, log := g.log ++ [.settled id], active := g.active - 1 }
  pump g.queue.length g

/-! ## Runs -/

/-- A request is a call; the rest is what the event loop delivers. An event that has nothing to act on
does nothing. -/
inductive Event where
  | admitRequest (request : GovernedRequest)
  | settled (id : Nat)
  | abort (signal : Nat)
  | timer (w : Nat)
  | drain

/-- An abort runs the listeners of the signal in the order of their registration, each once. -/
def abort (signal : Nat) : RunInferenceGovernor :=
  if signal ∈ g.aborted then g
  else
    let called := (g.listeners.filter (fun l => l.1 = signal)).map Prod.snd
    called.foldl (fun g w => (g.removeEventListener signal w).cancel w .cancelled)
      { g with aborted := signal :: g.aborted }

def fire (w : Nat) : RunInferenceGovernor :=
  if w ∈ g.timers then (g.clearTimeout w).cancel w .deadline else g

def step (g : RunInferenceGovernor) : Event → RunInferenceGovernor
  | .admitRequest request => g.admitRequest request
  | .settled id => if id ∈ g.running then g.settle id else g
  | .abort signal => g.abort signal
  | .timer w => g.fire w
  | .drain => g.drainTelemetry

end RunInferenceGovernor

end PrReviewer.Governor
