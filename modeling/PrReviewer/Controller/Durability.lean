import PrReviewer.Controller.SnapshotAdapter
import PrReviewer.Queue.Run

/-!
# When the cache is the durable truth

`Truthful` says of a world that the backend is called once for each accepted snapshot, in order and one at a
time, that an idle adapter loads what the backend accepted last and reports exactly a rejection, and that a
flush that ended well has its snapshot accepted. `Sane` is what every step keeps; it ties the state of the
adapter to the record of the run.

Two things break `Truthful` (`truthful_step`): a resolved persist does not undo the rollback of a rejected one
before it, and a rejection without a message is taken for none.
-/

open Js PrReviewer.Queue List

namespace PrReviewer.Controller

/-! ## The record of a run -/

/-- The snapshots that wait on the chain, in order. -/
def Link.persists : List Link → List QueueSnapshot
  | [] => []
  | .persist validated :: rest => validated :: persists rest
  | .flush _ :: rest => persists rest

/-- Each flush on the chain waits for the snapshots accepted before it; `n` of them have settled. -/
def Link.Placed : Nat → List Link → Prop
  | _, [] => True
  | n, .persist _ :: rest => Placed (n + 1) rest
  | n, .flush saved :: rest => saved = n ∧ Placed n rest

/-- What the backend accepted last. -/
def lastResolved (initial : QueueSnapshot) (settled : List (QueueSnapshot × Option String)) : QueueSnapshot :=
  ((settled.filter fun e => e.2 = none).getLast?.map Prod.fst).getD initial

/-- The message of the last settled persist, empty for one that resolved. -/
def lastMessage (settled : List (QueueSnapshot × Option String)) : String :=
  (settled.getLast?.bind Prod.snd).getD ""

namespace World

/-- The snapshots that were accepted and not yet handed to the backend. -/
def waiting (w : World) : List QueueSnapshot :=
  if w.store.started then (Link.persists w.store.chain).tail else Link.persists w.store.chain

/-- What the adapter promises. -/
structure Truthful (initial : QueueSnapshot) (w : World) : Prop where
  /-- Every accepted snapshot is handed to the backend once, in the order of the calls of `save`. -/
  ordered : w.calls ++ w.waiting = w.accepted
  /-- The saves settle in that order, and at most one has not settled. -/
  single : w.settled.map Prod.fst <+: w.calls ∧ w.calls.length ≤ w.settled.length + 1
  cache : w.store.pending = false → w.store.load = lastResolved initial w.settled
  latch : w.store.pending = false →
    (w.store.persistenceError ≠ "" ↔ ∃ e ∈ w.settled.getLast?, e.2 ≠ none)
  flushed : ∀ n, (n, .ok ()) ∈ w.flushes → n = 0 ∨
    ∃ v, w.accepted[n - 1]? = some v ∧ w.settled[n - 1]? = some (v, none)

/-- What every step keeps. -/
structure Sane (initial : QueueSnapshot) (w : World) : Prop where
  inFlight : w.store.inFlight = (Link.persists w.store.chain).length
  started : w.store.started = true → ∃ v rest, w.store.chain = .persist v :: rest
  calls : w.calls =
    w.settled.map Prod.fst ++ if w.store.started then (Link.persists w.store.chain).take 1 else []
  accepted : w.accepted = w.settled.map Prod.fst ++ Link.persists w.store.chain
  durable : w.store.durable = lastResolved initial w.settled
  latched : w.store.latchedError = lastMessage w.settled
  cache : w.store.cache = w.restored.getD (w.accepted.getLast?.getD initial)
  placed : Link.Placed w.settled.length w.store.chain

end World

/-! ## Lists -/

theorem Link.persists_append (chain chain' : List Link) :
    persists (chain ++ chain') = persists chain ++ persists chain' := by
  induction chain with
  | nil => rfl
  | cons l chain ih => cases l <;> simp [persists, ih]

theorem Link.placed_append (n : Nat) (chain chain' : List Link) :
    Placed n (chain ++ chain') ↔ Placed n chain ∧ Placed (n + (persists chain).length) chain' := by
  induction chain generalizing n with
  | nil => simp [Placed, persists]
  | cons l chain ih =>
    cases l with
    | persist v =>
      rw [cons_append, Placed, Placed, ih, persists, length_cons]
      rw [Nat.add_right_comm, Nat.add_assoc]
    | flush saved => simp only [cons_append, Placed, persists, ih, and_assoc]

section Settled

variable (initial : QueueSnapshot) (settled : List (QueueSnapshot × Option String)) (v : QueueSnapshot)

@[simp] theorem lastResolved_resolved : lastResolved initial (settled ++ [(v, none)]) = v := by
  simp [lastResolved]

@[simp] theorem lastResolved_rejected (message : String) :
    lastResolved initial (settled ++ [(v, some message)]) = lastResolved initial settled := by
  simp [lastResolved]

@[simp] theorem lastMessage_snoc (message : Option String) :
    lastMessage (settled ++ [(v, message)]) = message.getD "" := by
  simp [lastMessage]

end Settled

/-! ## One step -/

namespace World

variable {initial : QueueSnapshot} {w : World}

theorem sane_create (initial : QueueSnapshot) : Sane initial (create initial) where
  inFlight := rfl
  started h := nomatch h
  calls := rfl
  accepted := rfl
  durable := rfl
  latched := rfl
  cache := rfl
  placed := trivial

theorem Sane.save (h : Sane initial w) (v : QueueSnapshot) :
    Sane initial
      { w with
        store := { w.store with
          cache := v, inFlight := w.store.inFlight + 1, chain := w.store.chain ++ [.persist v] }
        accepted := w.accepted ++ [v]
        restored := none } where
  inFlight := by simp [Link.persists_append, Link.persists, h.inFlight]
  started hs := by
    obtain ⟨v', rest, hchain⟩ := h.started hs
    exact ⟨v', rest ++ [.persist v], by simp [hchain]⟩
  calls := by
    rw [h.calls, Link.persists_append]
    split
    · next hs =>
      obtain ⟨v', rest, hchain⟩ := h.started hs
      simp [hchain, Link.persists]
    · rfl
  accepted := by simp [h.accepted, Link.persists_append, Link.persists]
  durable := h.durable
  latched := h.latched
  cache := by simp
  placed := (Link.placed_append _ _ _).mpr ⟨h.placed, trivial⟩

theorem Sane.flush (h : Sane initial w) :
    Sane initial
      { w with store := { w.store with chain := w.store.chain ++ [.flush w.accepted.length] } } where
  inFlight := by simp [Link.persists_append, Link.persists, h.inFlight]
  started hs := by
    obtain ⟨v, rest, hchain⟩ := h.started hs
    exact ⟨v, rest ++ [.flush w.accepted.length], by simp [hchain]⟩
  calls := by simpa [Link.persists_append, Link.persists] using h.calls
  accepted := by simpa [Link.persists_append, Link.persists] using h.accepted
  durable := h.durable
  latched := h.latched
  cache := h.cache
  placed := (Link.placed_append _ _ _).mpr ⟨h.placed, by rw [h.accepted]; simp, trivial⟩

theorem Sane.start (h : Sane initial w) {v : QueueSnapshot} {rest : List Link}
    (hchain : w.store.chain = .persist v :: rest) (hs : w.store.started = false) :
    Sane initial { w with store := { w.store with started := true }, calls := w.calls ++ [v] } where
  inFlight := h.inFlight
  started _ := ⟨v, rest, hchain⟩
  calls := by
    have hcalls := h.calls
    rw [hs] at hcalls
    simp [hcalls, hchain, Link.persists]
  accepted := h.accepted
  durable := h.durable
  latched := h.latched
  cache := h.cache
  placed := h.placed

theorem Sane.resolve (h : Sane initial w) {v : QueueSnapshot} {rest : List Link}
    (hchain : w.store.chain = .persist v :: rest) (hs : w.store.started = true) :
    Sane initial { w with store := w.store.onResolved v rest, settled := w.settled ++ [(v, none)] } where
  inFlight := by simp [SnapshotBackedQueueStore.onResolved, h.inFlight, hchain, Link.persists]
  started hfalse := nomatch hfalse
  calls := by simp [SnapshotBackedQueueStore.onResolved, h.calls, hs, hchain, Link.persists]
  accepted := by simp [SnapshotBackedQueueStore.onResolved, h.accepted, hchain, Link.persists]
  durable := by simp [SnapshotBackedQueueStore.onResolved]
  latched := by simp [SnapshotBackedQueueStore.onResolved]
  cache := h.cache
  placed := by
    have hplaced := h.placed
    rw [hchain] at hplaced
    rw [length_append]
    exact hplaced

theorem Sane.reject (h : Sane initial w) {v : QueueSnapshot} {rest : List Link}
    (hchain : w.store.chain = .persist v :: rest) (hs : w.store.started = true) (message : String) :
    Sane initial
      { w with
        store := w.store.onRejected message rest
        settled := w.settled ++ [(v, some message)]
        restored := some w.store.durable } where
  inFlight := by simp [SnapshotBackedQueueStore.onRejected, h.inFlight, hchain, Link.persists]
  started hfalse := nomatch hfalse
  calls := by simp [SnapshotBackedQueueStore.onRejected, h.calls, hs, hchain, Link.persists]
  accepted := by simp [SnapshotBackedQueueStore.onRejected, h.accepted, hchain, Link.persists]
  durable := by simp [SnapshotBackedQueueStore.onRejected, h.durable]
  latched := by simp [SnapshotBackedQueueStore.onRejected]
  cache := rfl
  placed := by
    have hplaced := h.placed
    rw [hchain] at hplaced
    rw [length_append]
    exact hplaced

theorem Sane.check (h : Sane initial w) {n : Nat} {rest : List Link}
    (hchain : w.store.chain = .flush n :: rest) (result : Except Exn Unit) :
    Sane initial
      { w with store := { w.store with chain := rest }, flushes := w.flushes ++ [(n, result)] } where
  inFlight := by simp [h.inFlight, hchain, Link.persists]
  started hs := by
    obtain ⟨v, rest', hstarted⟩ := h.started hs
    rw [hchain] at hstarted
    cases hstarted
  calls := by simpa [hchain, Link.persists] using h.calls
  accepted := by simpa [hchain, Link.persists] using h.accepted
  durable := h.durable
  latched := h.latched
  cache := h.cache
  placed := by
    have hplaced := h.placed
    rw [hchain] at hplaced
    exact hplaced.2

/-- The snapshot that the backend is saving. -/
def running? (w : World) : Option QueueSnapshot :=
  match w.store.chain, w.store.started with
  | .persist validated :: _, true => some validated
  | _, _ => none

/-- A flush is about to end. -/
def flushing (w : World) : Bool :=
  match w.store.chain with
  | .flush _ :: _ => true
  | _ => false

/-- The steps that keep the adapter truthful. When the last persist in flight resolves, none was rejected since
its snapshot was saved, or the snapshot restored then is that very one; and no persist is rejected without a
message when it is the last one in flight or a flush ends right after it. -/
def Orderly (w : World) : Event → Prop
  | .resolve => ∀ v ∈ w.running?, w.store.inFlight = 1 → ∀ r ∈ w.restored, r = v
  | .reject message => w.running? ≠ none → w.store.inFlight = 1 → message ≠ ""
  | .check => w.flushing = true → ∀ e ∈ w.settled.getLast?, e.2 ≠ some ""
  | _ => True

instance (w : World) : DecidablePred w.Orderly
  | .resolve => inferInstanceAs (Decidable (∀ v ∈ w.running?, w.store.inFlight = 1 → ∀ r ∈ w.restored, r = v))
  | .reject message => inferInstanceAs (Decidable (w.running? ≠ none → w.store.inFlight = 1 → message ≠ ""))
  | .check => inferInstanceAs (Decidable (w.flushing = true → ∀ e ∈ w.settled.getLast?, e.2 ≠ some ""))
  | .save _ | .flush | .start => inferInstanceAs (Decidable True)

/-- What an event does: one of the steps of the adapter, or nothing. -/
inductive Stepped (w : World) : Event → World → Prop where
  | idle {e : Event} (h : w.Orderly e) : Stepped w e w
  | save {snapshot : Value} {v : QueueSnapshot} (hv : parseQueueSnapshot snapshot = .ok v) :
    Stepped w (.save snapshot)
      { w with
        store := { w.store with
          cache := v, inFlight := w.store.inFlight + 1, chain := w.store.chain ++ [.persist v] }
        accepted := w.accepted ++ [v]
        restored := none }
  | flush :
    Stepped w .flush
      { w with store := { w.store with chain := w.store.chain ++ [.flush w.accepted.length] } }
  | start {v : QueueSnapshot} {rest : List Link} (hchain : w.store.chain = .persist v :: rest)
    (hs : w.store.started = false) :
    Stepped w .start { w with store := { w.store with started := true }, calls := w.calls ++ [v] }
  | resolve {v : QueueSnapshot} {rest : List Link} (hchain : w.store.chain = .persist v :: rest)
    (hs : w.store.started = true) :
    Stepped w .resolve { w with store := w.store.onResolved v rest, settled := w.settled ++ [(v, none)] }
  | reject {v : QueueSnapshot} {rest : List Link} (hchain : w.store.chain = .persist v :: rest)
    (hs : w.store.started = true) (message : String) :
    Stepped w (.reject message)
      { w with
        store := w.store.onRejected message rest
        settled := w.settled ++ [(v, some message)]
        restored := some w.store.durable }
  | check {n : Nat} {rest : List Link} (hchain : w.store.chain = .flush n :: rest) :
    Stepped w .check
      { w with
        store := { w.store with chain := rest }, flushes := w.flushes ++ [(n, w.store.flushed)] }

theorem stepped (w : World) (e : Event) : Stepped w e (w.step e) := by
  cases e with
  | save snapshot =>
    cases hv : parseQueueSnapshot snapshot with
    | error e =>
      simp only [step, SnapshotBackedQueueStore.save, hv]
      exact .idle trivial
    | ok v =>
      simp only [step, SnapshotBackedQueueStore.save, hv]
      exact .save hv
  | flush => exact .flush
  | start =>
    rcases hchain : w.store.chain with _ | ⟨v | n, rest⟩ <;> cases hs : w.store.started <;>
      simp only [step, hchain, hs]
    case cons.persist.false =>
      rw [← hchain]
      exact .start hchain hs
    all_goals exact .idle trivial
  | resolve =>
    rcases hchain : w.store.chain with _ | ⟨v | n, rest⟩ <;> cases hs : w.store.started <;>
      simp only [step, hchain, hs]
    case cons.persist.true => exact .resolve hchain hs
    all_goals exact .idle (by simp [Orderly, running?, hchain, hs])
  | reject message =>
    rcases hchain : w.store.chain with _ | ⟨v | n, rest⟩ <;> cases hs : w.store.started <;>
      simp only [step, hchain, hs]
    case cons.persist.true => exact .reject hchain hs message
    all_goals exact .idle (by simp [Orderly, running?, hchain, hs])
  | check =>
    rcases hchain : w.store.chain with _ | ⟨v | n, rest⟩ <;> simp only [step, hchain]
    case cons.flush => exact .check hchain
    all_goals exact .idle (by simp [Orderly, flushing, hchain])

theorem sane_step (h : Sane initial w) (e : Event) : Sane initial (w.step e) := by
  have hstep := stepped w e
  generalize w.step e = w' at hstep ⊢
  cases hstep with
  | idle => exact h
  | save hv => exact h.save _
  | flush => exact h.flush
  | start hchain hs => exact h.start hchain hs
  | resolve hchain hs => exact h.resolve hchain hs
  | reject hchain hs message => exact h.reject hchain hs message
  | check hchain => exact h.check hchain _

/-! ## What keeps the adapter truthful -/

theorem pending_eq_false {s : SnapshotBackedQueueStore} : s.pending = false ↔ s.inFlight = 0 := by
  simp [SnapshotBackedQueueStore.pending]

/-- What is waiting does not change when the first link settles. -/
theorem Sane.calls_settle (h : Sane initial w) (ht : Truthful initial w) {v : QueueSnapshot} {rest : List Link}
    (hchain : w.store.chain = .persist v :: rest) (hs : w.store.started = true) :
    w.calls ++ Link.persists rest = w.accepted ∧ w.calls = (w.settled.map Prod.fst) ++ [v] := by
  have hordered := ht.ordered
  have hcalls := h.calls
  rw [waiting, hs, hchain] at hordered
  rw [hs, hchain] at hcalls
  exact ⟨hordered, hcalls⟩

theorem Sane.inFlight_eq_one (h : Sane initial w) {v : QueueSnapshot} {rest : List Link}
    (hchain : w.store.chain = .persist v :: rest) :
    w.store.inFlight = 1 ↔ Link.persists rest = [] := by
  rw [h.inFlight, hchain, Link.persists, length_cons, ← length_eq_zero_iff]
  omega

theorem Sane.inFlight_eq_one_of_idle (h : Sane initial w) {v : QueueSnapshot} {rest : List Link}
    (hchain : w.store.chain = .persist v :: rest) (hidle : w.store.inFlight - 1 = 0) :
    w.store.inFlight = 1 := by
  have hlength := h.inFlight
  rw [hchain, Link.persists, length_cons] at hlength
  omega

/-- A settlement does not change what an ended flush has proved. -/
theorem Truthful.flushed_settle (ht : Truthful initial w) (e : QueueSnapshot × Option String) (n : Nat)
    (hn : (n, .ok ()) ∈ w.flushes) :
    n = 0 ∨ ∃ v, w.accepted[n - 1]? = some v ∧ (w.settled ++ [e])[n - 1]? = some (v, none) := by
  rcases ht.flushed n hn with hzero | ⟨v, haccepted, hsettled⟩
  · exact .inl hzero
  · refine .inr ⟨v, haccepted, ?_⟩
    rw [List.getElem?_append_left (List.getElem?_eq_some_iff.mp hsettled).1]
    exact hsettled

theorem truthful_resolve (h : Sane initial w) (ht : Truthful initial w) {v : QueueSnapshot} {rest : List Link}
    (hchain : w.store.chain = .persist v :: rest) (hs : w.store.started = true) :
    Truthful initial
        { w with store := w.store.onResolved v rest, settled := w.settled ++ [(v, none)] } ↔
      w.Orderly .resolve := by
  obtain ⟨hordered, hcalls⟩ := h.calls_settle ht hchain hs
  have hrunning : w.running? = some v := by simp [running?, hchain, hs]
  have hcache : w.store.inFlight = 1 → (w.store.cache = v ↔ ∀ r ∈ w.restored, r = v) := by
    intro hone
    have hempty := (h.inFlight_eq_one hchain).mp hone
    rw [h.cache, h.accepted, hchain, Link.persists, hempty]
    cases w.restored <;> simp
  constructor
  · intro ht' v' hv' hone
    obtain rfl : v = v' := Option.some.inj (hrunning.symm.trans hv')
    have hloaded := ht'.cache (pending_eq_false.mpr (by simp [SnapshotBackedQueueStore.onResolved, hone]))
    rw [lastResolved_resolved] at hloaded
    exact (hcache hone).mp hloaded
  · intro horderly
    refine ⟨hordered, ⟨by simp [hcalls], by simp [hcalls]⟩, fun hidle => ?_, fun hidle => ?_, fun n hn => ?_⟩
    · have hone := h.inFlight_eq_one_of_idle hchain (pending_eq_false.mp hidle)
      rw [lastResolved_resolved]
      exact (hcache hone).mpr (horderly v hrunning hone)
    · simp [SnapshotBackedQueueStore.persistenceError, SnapshotBackedQueueStore.onResolved]
    · exact ht.flushed_settle _ n hn

theorem truthful_reject (h : Sane initial w) (ht : Truthful initial w) {v : QueueSnapshot} {rest : List Link}
    (hchain : w.store.chain = .persist v :: rest) (hs : w.store.started = true) (message : String) :
    Truthful initial
        { w with
          store := w.store.onRejected message rest
          settled := w.settled ++ [(v, some message)]
          restored := some w.store.durable } ↔
      w.Orderly (.reject message) := by
  obtain ⟨hordered, hcalls⟩ := h.calls_settle ht hchain hs
  have hrunning : w.running? ≠ none := by simp [running?, hchain, hs]
  constructor
  · intro ht' _ hone
    have hlatch := ht'.latch (pending_eq_false.mpr (by simp [SnapshotBackedQueueStore.onRejected, hone]))
    exact hlatch.mpr ⟨(v, some message), by simp, by simp⟩
  · intro horderly
    refine ⟨hordered, ⟨by simp [hcalls], by simp [hcalls]⟩, fun _ => ?_, fun hidle => ?_, fun n hn => ?_⟩
    · rw [lastResolved_rejected]
      exact h.durable
    · have hone := h.inFlight_eq_one_of_idle hchain (pending_eq_false.mp hidle)
      have hmessage := horderly hrunning hone
      simpa [SnapshotBackedQueueStore.persistenceError, SnapshotBackedQueueStore.onRejected] using hmessage
    · exact ht.flushed_settle _ n hn

theorem truthful_save (h : Sane initial w) (ht : Truthful initial w) (v : QueueSnapshot) :
    Truthful initial
      { w with
        store := { w.store with
          cache := v, inFlight := w.store.inFlight + 1, chain := w.store.chain ++ [.persist v] }
        accepted := w.accepted ++ [v]
        restored := none } := by
  have hbusy : ({ w.store with
      cache := v, inFlight := w.store.inFlight + 1, chain := w.store.chain ++ [.persist v] } :
        SnapshotBackedQueueStore).pending = true := by
    simp [SnapshotBackedQueueStore.pending]
  refine ⟨?_, ht.single, fun hidle => ?_, fun hidle => ?_, fun n hn => ?_⟩
  · have hordered := ht.ordered
    rw [waiting] at hordered ⊢
    dsimp only
    rw [Link.persists_append]
    split
    · next hs =>
      obtain ⟨v', rest, hchain⟩ := h.started hs
      rw [if_pos hs, hchain] at hordered
      rw [hchain, ← hordered]
      simp [Link.persists]
    · next hs =>
      rw [if_neg hs] at hordered
      rw [← hordered]
      simp [Link.persists]
  · exact absurd hidle (by rw [hbusy]; exact Bool.noConfusion)
  · exact absurd hidle (by rw [hbusy]; exact Bool.noConfusion)
  · rcases ht.flushed n hn with hzero | ⟨v', haccepted, hsettled⟩
    · exact .inl hzero
    · refine .inr ⟨v', ?_, hsettled⟩
      dsimp only
      rw [List.getElem?_append_left (List.getElem?_eq_some_iff.mp haccepted).1]
      exact haccepted

theorem truthful_flush (ht : Truthful initial w) :
    Truthful initial
      { w with store := { w.store with chain := w.store.chain ++ [.flush w.accepted.length] } } := by
  refine ⟨?_, ht.single, ht.cache, ht.latch, ht.flushed⟩
  have hordered := ht.ordered
  simpa [waiting, Link.persists_append, Link.persists] using hordered

theorem truthful_start (h : Sane initial w) (ht : Truthful initial w) {v : QueueSnapshot} {rest : List Link}
    (hchain : w.store.chain = .persist v :: rest) (hs : w.store.started = false) :
    Truthful initial { w with store := { w.store with started := true }, calls := w.calls ++ [v] } := by
  have hcalls := h.calls
  have hordered := ht.ordered
  rw [waiting, hs, hchain] at hordered
  rw [hs] at hcalls
  refine ⟨?_, ⟨by simp [hcalls], by simp [hcalls]⟩, ht.cache, ht.latch, ht.flushed⟩
  rw [← hordered]
  simp [waiting, hchain, Link.persists]

theorem truthful_check (h : Sane initial w) (ht : Truthful initial w) {n : Nat} {rest : List Link}
    (hchain : w.store.chain = .flush n :: rest) :
    Truthful initial
        { w with store := { w.store with chain := rest }, flushes := w.flushes ++ [(n, w.store.flushed)] } ↔
      w.Orderly .check := by
  have hplaced := h.placed
  rw [hchain] at hplaced
  obtain rfl : n = w.settled.length := hplaced.1
  have hflushing : w.flushing = true := by rw [flushing, hchain]
  have hflushed : w.store.flushed = .ok () ↔ lastMessage w.settled = "" := by
    rw [SnapshotBackedQueueStore.flushed, h.latched]
    split
    · next hne => exact ⟨fun hok => (nomatch hok), fun heq => absurd heq hne⟩
    · next heq => exact ⟨fun _ => not_not.mp heq, fun _ => rfl⟩
  have hlast : w.settled.getLast? = w.settled[w.settled.length - 1]? := List.getLast?_eq_getElem?
  constructor
  · rintro ht' - ⟨v, message⟩ he rfl
    rw [hlast] at he
    have hok : w.store.flushed = .ok () := by
      rw [hflushed, lastMessage, hlast, he]
      rfl
    rcases ht'.flushed w.settled.length (by simp [hok]) with hzero | ⟨v', -, hsettled⟩
    · rw [length_eq_zero_iff] at hzero
      rw [hzero] at he
      cases he
    · rw [he] at hsettled
      cases hsettled
  · intro horderly
    refine ⟨?_, ht.single, ht.cache, ht.latch, fun n hn => ?_⟩
    · have hordered := ht.ordered
      simpa [waiting, hchain, Link.persists] using hordered
    · rcases mem_append.mp hn with hn | hn
      · exact ht.flushed n hn
      · obtain ⟨rfl, hok⟩ := Prod.mk.inj (mem_singleton.mp hn)
        rcases eq_nil_or_concat w.settled with hnil | ⟨init, ⟨v, message⟩, hconcat⟩
        · exact .inl (by rw [hnil]; rfl)
        · rw [concat_eq_append] at hconcat
          have hmessage := hflushed.mp hok.symm
          have hresolved := horderly hflushing (v, message) (by simp [hconcat])
          rw [hconcat, lastMessage_snoc] at hmessage
          have hnone : message = none := by
            cases message with
            | none => rfl
            | some m => exact absurd (congrArg some hmessage) hresolved
          subst hnone
          refine .inr ⟨v, ?_, ?_⟩
          · rw [h.accepted]
            simp [hconcat]
          · simp [hconcat]

theorem truthful_step (h : Sane initial w) (ht : Truthful initial w) (e : Event) :
    Truthful initial (w.step e) ↔ w.Orderly e := by
  have hstep := stepped w e
  generalize w.step e = w' at hstep ⊢
  cases hstep with
  | idle horderly => exact iff_of_true ht horderly
  | save hv => exact iff_of_true (truthful_save h ht _) trivial
  | flush => exact iff_of_true (truthful_flush ht) trivial
  | start hchain hs => exact iff_of_true (truthful_start h ht hchain hs) trivial
  | resolve hchain hs => exact truthful_resolve h ht hchain hs
  | reject hchain hs message => exact truthful_reject h ht hchain hs message
  | check hchain => exact truthful_check h ht hchain

/-! ## Runs -/

theorem truthful_create (initial : QueueSnapshot) : Truthful initial (create initial) := by
  refine ⟨rfl, ⟨prefix_refl _, Nat.zero_le _⟩, fun _ => rfl, fun _ => ?_, fun n hn => nomatch hn⟩
  exact iff_of_false (fun hne => hne rfl) fun ⟨e, he, _⟩ => nomatch he

/-- A queued record of the job. -/
def exampleRecord (jobId : String) : JobRecord where
  job := exampleJob jobId
  prKey := prIdentityKey (exampleJob jobId)
  state := .queued
  enqueuedAtMs := 0
  readyAtMs := 0
  attempt := 0
  nextRetryAtMs := 0
  leaseOwner := ""
  leaseExpiresAtMs := 0
  cancelRequested := false
  resultHeadSha := ""
  failureReason := ""
  supersededByJobId := ""
  updatedAtMs := 0

/-- Two saves; the first is rejected while the second waits, and the second resolves. -/
def overtaken : List Event :=
  [.save (snapshotValue []), .save (snapshotValue [exampleRecord "a"]), .start, .reject "connection reset",
    .start, .resolve]

end World

end PrReviewer.Controller
