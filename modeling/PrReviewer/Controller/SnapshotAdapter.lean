import PrReviewer.Js.Machine
import PrReviewer.Queue.Store

/-!
# The queue snapshot adapter

`SnapshotBackedQueueStoreImpl` of `src/controller/snapshot-adapter.ts`. `save` answers at once and appends a
persist to a chain of promises; `flush` waits at the end of the chain. What waits on the chain runs in the order
of registration, so the chain is a list of links: the rest of a `flush` that is registered after a persist comes
before a persist that is saved later.

A run is any interleaving of `save` and `flush` with the steps of the chain (`start`, `check`) and with the
settlements of the backend's saves (`resolve`, `reject`), each with its handler. An event that cannot happen
changes nothing.

The rest of a world (`World`) is a record of the run that the adapter does not read.
-/

open Js PrReviewer.Queue

namespace PrReviewer.Controller

/-! ## The adapter -/

/-- What waits on the chain. -/
inductive Link where
  /-- A save of the backend, with its handlers. -/
  | persist (validated : QueueSnapshot)
  /-- The rest of a `flush`; `saved` snapshots were accepted before it. -/
  | flush (saved : Nat)

structure SnapshotBackedQueueStore where
  cache : QueueSnapshot
  durable : QueueSnapshot
  chain : List Link
  inFlight : Nat
  latchedError : String
  /-- The backend has been called for the first link. -/
  started : Bool

namespace SnapshotBackedQueueStore

def create (initial : QueueSnapshot) : SnapshotBackedQueueStore where
  cache := initial
  durable := initial
  chain := []
  inFlight := 0
  latchedError := ""
  started := false

variable (s : SnapshotBackedQueueStore)

def load : QueueSnapshot := s.cache

def save (snapshot : Value) : Except Exn SnapshotBackedQueueStore :=
  match parseQueueSnapshot snapshot with
  | .error e => .error e
  | .ok validated =>
    .ok { s with cache := validated, inFlight := s.inFlight + 1, chain := s.chain ++ [.persist validated] }

def persistenceError : String := s.latchedError

def pending : Bool := 0 < s.inFlight

/-- The handler of a persist that resolved. -/
def onResolved (validated : QueueSnapshot) (rest : List Link) : SnapshotBackedQueueStore :=
  { s with
    inFlight := s.inFlight - 1, durable := validated, latchedError := "", chain := rest, started := false }

/-- The handler of a persist that was rejected. -/
def onRejected (message : String) (rest : List Link) : SnapshotBackedQueueStore :=
  { s with
    inFlight := s.inFlight - 1, latchedError := message, cache := s.durable, chain := rest, started := false }

/-- The end of a `flush`. -/
def flushed : Except Exn Unit :=
  if s.latchedError ≠ "" then
    .error ⟨"SnapshotQueueStoreError", "SnapshotQueueStore: persistence failed (" ++ s.latchedError ++ ")"⟩
  else .ok ()

end SnapshotBackedQueueStore

/-! ## Runs -/

/-- The adapter, and what happened so far. -/
structure World where
  store : SnapshotBackedQueueStore
  /-- The snapshots that `save` accepted. -/
  accepted : List QueueSnapshot
  /-- The calls of `backend.save`. -/
  calls : List QueueSnapshot
  /-- The saves that settled, each with the message of its rejection. -/
  settled : List (QueueSnapshot × Option String)
  /-- The ended flushes, each with the number of snapshots accepted before it. -/
  flushes : List (Nat × Except Exn Unit)
  /-- The snapshot that the latest rejection restored, if nothing was saved since. -/
  restored : Option QueueSnapshot

inductive Event where
  | save (snapshot : Value)
  | flush
  | start
  | resolve
  | reject (message : String)
  | check

namespace World

def create (initial : QueueSnapshot) : World where
  store := .create initial
  accepted := []
  calls := []
  settled := []
  flushes := []
  restored := none

variable (w : World)

def step : Event → World
  | .save snapshot =>
    match w.store.save snapshot with
    | .error _ => w
    | .ok store => { w with store, accepted := w.accepted ++ [store.cache], restored := none }
  | .flush =>
    { w with store := { w.store with chain := w.store.chain ++ [.flush w.accepted.length] } }
  | .start =>
    match w.store.chain, w.store.started with
    | .persist validated :: _, false =>
      { w with store := { w.store with started := true }, calls := w.calls ++ [validated] }
    | _, _ => w
  | .resolve =>
    match w.store.chain, w.store.started with
    | .persist validated :: rest, true =>
      { w with
        store := w.store.onResolved validated rest, settled := w.settled ++ [(validated, none)] }
    | _, _ => w
  | .reject message =>
    match w.store.chain, w.store.started with
    | .persist validated :: rest, true =>
      { w with
        store := w.store.onRejected message rest
        settled := w.settled ++ [(validated, some message)]
        restored := some w.store.durable }
    | _, _ => w
  | .check =>
    match w.store.chain with
    | .flush saved :: rest =>
      { w with
        store := { w.store with chain := rest }, flushes := w.flushes ++ [(saved, w.store.flushed)] }
    | _ => w

end World

end PrReviewer.Controller
