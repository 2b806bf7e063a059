import PrReviewer.Governor.Admission

/-!
# Every request leaves admission once

- **Histories** (`history`): what the log says of one request. It is empty while the request waits. A
  request that has left has one of the histories of `Departed`: a record marked as not cancelled and the
  start of the task, or a record marked as cancelled and the rejection.
- **The invariant** (`Sound c m`): the active count is the number of running tasks and within the cap, a
  waiter is in the queue as long as its `removed` flag is down, and each request waits or has departed.
  `m` is the request that is on its way: taken from the queue, or just offered, and neither started nor
  rejected yet.
-/

open Js List

namespace PrReviewer.Governor.RunInferenceGovernor

variable {g : RunInferenceGovernor} {c : Nat} {m : Option Nat} {id w : Nat}

/-! ## Histories -/

def history (g : RunInferenceGovernor) (id : Nat) : List Effect :=
  g.log.filter fun e => e.id = id

/-- The history of a request that has left admission. -/
inductive Departed (id : Nat) : List Effect → Prop
  | started (r : GovernorQueueTelemetry) (h : r.cancelledBeforeDispatch = false) :
    Departed id [.recorded id r, .started id]
  | settled (r : GovernorQueueTelemetry) (h : r.cancelledBeforeDispatch = false) :
    Departed id [.recorded id r, .started id, .settled id]
  | rejected (r : GovernorQueueTelemetry) (reason : CancelReason)
    (h : r.cancelledBeforeDispatch = true) :
    Departed id [.recorded id r, .rejected id reason]

/-- The history of a request whose task runs. -/
def Running (id : Nat) (es : List Effect) : Prop :=
  ∃ r, r.cancelledBeforeDispatch = false ∧ es = [.recorded id r, .started id]

def Waiting (g : RunInferenceGovernor) (id : Nat) : Prop :=
  ∃ w ∈ g.queue, (g.waiters w).id = id

variable {g' : RunInferenceGovernor} {es : List Effect}

theorem history_append (h : g'.log = g.log ++ es)
    (id : Nat) : g'.history id = g.history id ++ es.filter fun e => e.id = id := by
  rw [history, h, filter_append]
  rfl

/-- Effects of one request do not change the history of another. -/
theorem history_of_ne (h : g'.log = g.log ++ es)
    (hes : ∀ e ∈ es, e.id = id) {i : Nat} (hi : i ≠ id) : g'.history i = g.history i := by
  rw [history_append h, filter_eq_nil_iff.mpr, append_nil]
  intro e he
  rw [hes e he]
  simpa using Ne.symm hi

/-- Effects of one request extend its history. -/
theorem history_self (h : g'.log = g.log ++ es)
    (hes : ∀ e ∈ es, e.id = id) : g'.history id = g.history id ++ es := by
  rw [history_append h, filter_eq_self.mpr]
  intro e he
  simpa using hes e he

/-! ## The invariant -/

structure Sound (c : Nat) (m : Option Nat) (g : RunInferenceGovernor) : Prop where
  enabled : g.enabled = true
  cap : g.maxConcurrent = c
  positive : 0 < c
  active : g.active = g.running.length
  bound : g.active ≤ g.maxConcurrent
  nodup : g.queue.Nodup
  queued : ∀ w, w ∈ g.queue ↔ (g.waiters w).removed = false
  allocated : ∀ w ∈ g.queue, w ≤ g.seq
  distinct : ∀ w ∈ g.queue, ∀ v ∈ g.queue, (g.waiters w).id = (g.waiters v).id → w = v
  waiting : ∀ id, g.Waiting id → id < g.requests ∧ g.history id = []
  future : ∀ id, g.requests ≤ id → g.history id = []
  moving : ∀ id, m = some id → id < g.requests ∧ ¬ g.Waiting id ∧ g.history id = []
  departed : ∀ id < g.requests, m ≠ some id → ¬ g.Waiting id → Departed id (g.history id)
  running : ∀ id, id ∈ g.running ↔ Running id (g.history id)
  runningNodup : g.running.Nodup
  buffered : g.drained ++ g.records = g.log.filterMap Effect.record?

/-- The clock, the timers, the listeners and the signals do not matter. -/
theorem Sound.environment (h : g.Sound c m) (reads : Nat) (timers : List Nat)
    (listeners : List (Nat × Nat)) (aborted : List Nat) :
    Sound c m { g with
      reads := reads, timers := timers, listeners := listeners, aborted := aborted } :=
  ⟨h.enabled, h.cap, h.positive, h.active, h.bound, h.nodup, h.queued, h.allocated, h.distinct, h.waiting,
    h.future, h.moving, h.departed, h.running, h.runningNodup, h.buffered⟩

theorem sound_tick (h : g.Sound c m) : g.tick.Sound c m :=
  h.environment (g.reads + 1) g.timers g.listeners g.aborted

/-- A request that waits does not run. -/
theorem Sound.not_running (h : g.Sound c m) (hid : g.history id = []) : id ∉ g.running := by
  rw [h.running id, hid]
  rintro ⟨r, -, heq⟩
  cases heq

/-! ## A waiter leaves the queue -/

/-- What `leave` does, the environment apart. -/
theorem leave_eq (g : RunInferenceGovernor) (w : Nat) : ∃ timers listeners, g.leave w = { g with
    waiters := fun v => if v = w then { g.waiters w with removed := true } else g.waiters v
    queue := g.queue.erase w
    timers := timers
    listeners := listeners } := by
  unfold leave
  dsimp only
  split <;> split <;> exact ⟨_, _, rfl⟩

theorem waiting_leave (hnodup : g.queue.Nodup)
    (hdistinct : ∀ w ∈ g.queue, ∀ v ∈ g.queue, (g.waiters w).id = (g.waiters v).id → w = v)
    (hw : w ∈ g.queue) (i : Nat) :
    (g.leave w).Waiting i ↔ g.Waiting i ∧ i ≠ (g.waiters w).id := by
  obtain ⟨ts, ls, heq⟩ := g.leave_eq w
  rw [heq]
  constructor
  · rintro ⟨v, hv, rfl⟩
    obtain ⟨hne, hv⟩ := hnodup.mem_erase_iff.mp hv
    simp only [if_neg hne]
    exact ⟨⟨v, hv, rfl⟩, fun hid => hne (hdistinct v hv w hw hid)⟩
  · rintro ⟨⟨v, hv, rfl⟩, hne⟩
    have hvw : v ≠ w := by
      rintro rfl
      exact hne rfl
    exact ⟨v, hnodup.mem_erase_iff.mpr ⟨hvw, hv⟩, by simp only [if_neg hvw]⟩

/-- The request of a waiter that leaves is on its way. -/
theorem sound_leave (h : g.Sound c none) (hw : w ∈ g.queue) :
    (g.leave w).Sound c (some (g.waiters w).id) := by
  have hwaiting := waiting_leave h.nodup h.distinct hw
  have hown : g.Waiting (g.waiters w).id := ⟨w, hw, rfl⟩
  obtain ⟨ts, ls, heq⟩ := g.leave_eq w
  rw [heq] at hwaiting ⊢
  refine ⟨h.enabled, h.cap, h.positive, h.active, h.bound, h.nodup.erase w, ?_, ?_, ?_, ?_, h.future, ?_, ?_,
    h.running, h.runningNodup, h.buffered⟩
  · intro v
    show v ∈ g.queue.erase w ↔ _
    rw [h.nodup.mem_erase_iff]
    by_cases hv : v = w
    · simp [hv]
    · simp [hv, h.queued v]
  · intro v hv
    exact h.allocated v (mem_of_mem_erase hv)
  · intro v hv u hu hid
    obtain ⟨hvw, hv⟩ := h.nodup.mem_erase_iff.mp hv
    obtain ⟨huw, hu⟩ := h.nodup.mem_erase_iff.mp hu
    simp only [if_neg hvw, if_neg huw] at hid
    exact h.distinct v hv u hu hid
  · intro i hi
    exact h.waiting i ((hwaiting i).mp hi).1
  · rintro i hi
    obtain rfl := Option.some.inj hi
    exact ⟨(h.waiting _ hown).1, fun hi => ((hwaiting _).mp hi).2 rfl, (h.waiting _ hown).2⟩
  · intro i hi hne hnot
    refine h.departed i hi (by simp) fun hold => hnot ((hwaiting i).mpr ⟨hold, ?_⟩)
    rintro rfl
    exact hne rfl

/-! ## A request ends its way -/

/-- A request that was on its way has the history `es`, and `running` is the list of running tasks. -/
theorem Sound.arrive (h : g.Sound c (some id)) (es : List Effect) (active : Nat) (running : List Nat)
    (hes : ∀ e ∈ es, e.id = id) (hd : Departed id es) (hactive : active = running.length)
    (hbound : active ≤ g.maxConcurrent) (hnodup : running.Nodup)
    (hrunning : ∀ i, i ∈ running ↔ i ∈ g.running ∨ i = id ∧ Running id es) :
    Sound c none { g with
      active := active, running := running, log := g.log ++ es
      records := g.records ++ es.filterMap Effect.record? } := by
  obtain ⟨hlt, hnot, hnil⟩ := h.moving id rfl
  let g' : RunInferenceGovernor := { g with
    active := active, running := running, log := g.log ++ es
    records := g.records ++ es.filterMap Effect.record? }
  have hlog : g'.log = g.log ++ es := rfl
  have hself : g'.history id = es := by
    rw [history_self hlog hes, hnil]
    rfl
  have hother : ∀ i, i ≠ id → g'.history i = g.history i := fun i hi => history_of_ne hlog hes hi
  have hne : ∀ i, g.Waiting i → i ≠ id := by
    rintro i hi rfl
    exact hnot hi
  refine ⟨h.enabled, h.cap, h.positive, hactive, hbound, h.nodup, h.queued, h.allocated, h.distinct, ?_, ?_,
    (fun i hi => nomatch hi), ?_, ?_, hnodup, ?_⟩
  · intro i hi
    obtain ⟨hlt, hold⟩ := h.waiting i hi
    exact ⟨hlt, (hother i (hne i hi)).trans hold⟩
  · intro i hi
    have hi' : i ≠ id := by
      rintro rfl
      exact absurd hlt (Nat.not_lt.mpr hi)
    exact (hother i hi').trans (h.future i hi)
  · rintro i hi - hw
    by_cases heq : i = id
    · subst heq
      show Departed i (g'.history i)
      rw [hself]
      exact hd
    · show Departed i (g'.history i)
      rw [hother i heq]
      exact h.departed i hi (fun hm => heq (Option.some.inj hm).symm) hw
  · intro i
    show i ∈ running ↔ Running i (g'.history i)
    rw [hrunning i]
    by_cases heq : i = id
    · subst heq
      rw [hself]
      simp [h.not_running hnil]
    · rw [hother i heq, h.running i]
      simp [heq]
  · show g.drained ++ (g.records ++ _) = (g.log ++ es).filterMap Effect.record?
    rw [filterMap_append, ← h.buffered, append_assoc]

theorem sound_reject (h : g.Sound c (some id)) {r : GovernorQueueTelemetry}
    (hr : r.cancelledBeforeDispatch = true) (reason : CancelReason) :
    ((g.push id r).reject id reason).Sound c none := by
  have := h.arrive [.recorded id r, .rejected id reason] g.active g.running
    (by simp [Effect.id]) (.rejected r reason hr) h.active h.bound h.runningNodup
    (by simp [Running])
  rw [← singleton_append, ← append_assoc] at this
  exact this

theorem sound_dispatch (h : g.Sound c (some id)) (hlt : g.active < g.maxConcurrent)
    (request : GovernedRequest) (queueWaitMs : Number) :
    (g.dispatch id request queueWaitMs).Sound c none := by
  have hnew := h.not_running (h.moving id rfl).2.2
  let r : GovernorQueueTelemetry :=
    ⟨request.priority.rank, request.endpointKey, queueWaitMs, g.active + 1, false⟩
  have hnodup : (g.running ++ [id]).Nodup := by
    rw [nodup_append]
    refine ⟨h.runningNodup, by simp, ?_⟩
    rintro a ha b hb rfl
    exact hnew (mem_singleton.mp hb ▸ ha)
  have := h.arrive [.recorded id r, .started id] (g.active + 1) (g.running ++ [id])
    (by simp [Effect.id]) (.started r rfl) (by simp [h.active]) hlt hnodup
    (by
      have hr : Running id [.recorded id r, .started id] := ⟨r, rfl, rfl⟩
      simp [hr])
  rw [← singleton_append, ← append_assoc] at this
  exact this

/-- The governor with the object `x` at the end of its queue. -/
def joined (g : RunInferenceGovernor) (x : Waiter) : RunInferenceGovernor := { g with
  waiters := fun v => if v = g.seq + 1 then x else g.waiters v
  seq := g.seq + 1
  queue := g.queue ++ [g.seq + 1] }

theorem waiting_joined (h : ∀ w ∈ g.queue, w ≤ g.seq) (x : Waiter) (i : Nat) :
    (g.joined x).Waiting i ↔ g.Waiting i ∨ x.id = i := by
  have hold : ∀ v ∈ g.queue, ((g.joined x).waiters v).id = (g.waiters v).id := by
    intro v hv
    have hne : v ≠ g.seq + 1 := by
      have := h v hv
      omega
    simp [joined, hne]
  have hnew : ((g.joined x).waiters (g.seq + 1)).id = x.id := by simp [joined]
  constructor
  · rintro ⟨v, hv, hid⟩
    rcases mem_append.mp hv with hv | hv
    · exact .inl ⟨v, hv, (hold v hv).symm.trans hid⟩
    · rw [mem_singleton.mp hv, hnew] at hid
      exact .inr hid
  · rintro (⟨v, hv, hid⟩ | hid)
    · exact ⟨v, mem_append_left _ hv, (hold v hv).trans hid⟩
    · exact ⟨g.seq + 1, mem_append_right _ (mem_singleton_self _), hnew.trans hid⟩

/-- A request that was on its way waits. -/
theorem sound_joined (h : g.Sound c (some id)) {x : Waiter} (hid : x.id = id)
    (hremoved : x.removed = false) : (g.joined x).Sound c none := by
  obtain ⟨hlt, hnot, hnil⟩ := h.moving id rfl
  have hne : ∀ v ∈ g.queue, v ≠ g.seq + 1 := by
    intro v hv
    have := h.allocated v hv
    omega
  have hwaiting := waiting_joined h.allocated x
  refine ⟨h.enabled, h.cap, h.positive, h.active, h.bound, ?_, ?_, ?_, ?_, ?_, h.future,
    (fun i hi => nomatch hi), ?_, h.running, h.runningNodup, h.buffered⟩
  · show (g.queue ++ [g.seq + 1]).Nodup
    rw [nodup_append]
    refine ⟨h.nodup, by simp, ?_⟩
    intro a ha b hb
    rw [mem_singleton.mp hb]
    exact hne a ha
  · intro v
    show v ∈ g.queue ++ [g.seq + 1] ↔ (if v = g.seq + 1 then x else g.waiters v).removed = false
    by_cases hv : v = g.seq + 1
    · simp [hv, hremoved]
    · simp [hv, h.queued v]
  · intro v hv
    show v ≤ g.seq + 1
    rcases mem_append.mp hv with hv | hv
    · exact Nat.le_succ_of_le (h.allocated v hv)
    · exact Nat.le_of_eq (mem_singleton.mp hv)
  · intro v hv u hu heq
    simp only [joined] at heq
    rcases mem_append.mp hv with hv | hv <;> rcases mem_append.mp hu with hu | hu
    · rw [if_neg (hne v hv), if_neg (hne u hu)] at heq
      exact h.distinct v hv u hu heq
    · rw [if_neg (hne v hv), if_pos (mem_singleton.mp hu), hid] at heq
      exact absurd ⟨v, hv, heq⟩ hnot
    · rw [if_neg (hne u hu), if_pos (mem_singleton.mp hv), hid] at heq
      exact absurd ⟨u, hu, heq.symm⟩ hnot
    · rw [mem_singleton.mp hv, mem_singleton.mp hu]
  · intro i hi
    rcases (hwaiting i).mp hi with hi | rfl
    · exact h.waiting i hi
    · rw [hid]
      exact ⟨hlt, hnil⟩
  · rintro i hi - hw
    rw [hwaiting, not_or] at hw
    refine h.departed i hi (fun heq => hw.2 ?_) hw.1
    rw [hid]
    exact Option.some.inj heq

/-! ## Calls and events -/

theorem sound_cancel (h : g.Sound c none) (w : Nat) (reason : CancelReason) :
    (g.cancel w reason).Sound c none := by
  unfold cancel
  dsimp only
  split
  · exact h
  · next hw =>
    have hmem : w ∈ g.queue := (h.queued w).mpr (by simpa using hw)
    exact sound_reject (sound_tick (sound_leave h hmem)) rfl reason

theorem sound_select (h : g.Sound c none) (hw : w ∈ g.queue) (hlt : g.active < g.maxConcurrent) :
    (g.select w).Sound c none := by
  have hleave := sound_tick (sound_leave h hw)
  refine sound_dispatch hleave ?_ _ _
  obtain ⟨ts, ls, heq⟩ := g.leave_eq w
  rw [heq]
  exact hlt

/-- A request that is offered is on its way. -/
theorem sound_offer (h : g.Sound c none) :
    Sound c (some g.requests) { g with requests := g.requests + 1 } := by
  have hnil := h.future g.requests (Nat.le_refl _)
  have hnot : ¬ g.Waiting g.requests := fun hw => Nat.lt_irrefl _ (h.waiting _ hw).1
  refine ⟨h.enabled, h.cap, h.positive, h.active, h.bound, h.nodup, h.queued, h.allocated, h.distinct, ?_, ?_,
    ?_, ?_, h.running, h.runningNodup, h.buffered⟩
  · intro i hi
    exact ⟨Nat.lt_succ_of_lt (h.waiting i hi).1, (h.waiting i hi).2⟩
  · intro i hi
    exact h.future i (Nat.le_of_succ_le hi)
  · intro i hi
    obtain rfl := Option.some.inj hi
    exact ⟨Nat.lt_succ_self _, hnot, hnil⟩
  · intro i hi hne hw
    have hi' : i < g.requests := by
      have : i ≠ g.requests := fun heq => hne (heq ▸ rfl)
      have : i < g.requests + 1 := hi
      omega
    exact h.departed i hi' (by simp) hw

/-- What `enqueue` does with a signal that has not aborted, the environment apart. -/
theorem enqueue_eq (g : RunInferenceGovernor) (id : Nat) (request : GovernedRequest)
    (hlive : g.isAborted request.signal = false) : ∃ timers listeners,
    g.enqueue id request = { g.joined ⟨g.seq + 1, id, request.priority, request, g.dateNow, false,
      request.signal.isSome, request.deadlineMs.isSome⟩ with
        reads := g.reads + 1, timers := timers, listeners := listeners } := by
  have hlive' : ({ g with seq := g.seq + 1 } : RunInferenceGovernor).tick.isAborted
      request.signal = false := hlive
  unfold enqueue
  dsimp only
  rw [hlive', if_neg Bool.false_ne_true]
  cases request.signal <;> split <;> exact ⟨_, _, rfl⟩

theorem sound_enqueue (h : g.Sound c (some id)) (request : GovernedRequest)
    (hlive : g.isAborted request.signal = false) : (g.enqueue id request).Sound c none := by
  obtain ⟨ts, ls, heq⟩ := g.enqueue_eq id request hlive
  rw [heq]
  exact (sound_joined h rfl rfl).environment (g.reads + 1) ts ls g.aborted

theorem sound_admitRequest (h : g.Sound c none) (request : GovernedRequest) :
    (g.admitRequest request).Sound c none := by
  have hoffer := sound_offer h
  unfold admitRequest
  dsimp only
  split
  · next hoff => simp [h.enabled] at hoff
  · split
    · exact sound_reject hoffer rfl .cancelled
    · split
      · next hlt => exact sound_dispatch hoffer hlt request 0
      · next hlive _ => exact sound_enqueue hoffer request (by simpa using hlive)

theorem sound_drain (h : g.Sound c none) : g.drainTelemetry.Sound c none :=
  ⟨h.enabled, h.cap, h.positive, h.active, h.bound, h.nodup, h.queued, h.allocated, h.distinct, h.waiting,
    h.future, h.moving, h.departed, h.running, h.runningNodup, by
      show g.drained ++ g.records ++ [] = _
      rw [append_nil]
      exact h.buffered⟩

/-! ## The loop over the queue -/

/-- What `cancel` does to a waiter that is in the queue, the environment apart. -/
theorem cancel_eq (hw : (g.waiters w).removed = false) (reason : CancelReason) :
    ∃ timers listeners r, r.cancelledBeforeDispatch = true ∧ g.cancel w reason = { g with
      waiters := fun v => if v = w then { g.waiters w with removed := true } else g.waiters v
      queue := g.queue.erase w
      timers := timers
      listeners := listeners
      reads := g.reads + 1
      records := g.records ++ [r]
      log := g.log ++ [.recorded (g.waiters w).id r] ++ [.rejected (g.waiters w).id reason] } := by
  obtain ⟨ts, ls, heq⟩ := g.leave_eq w
  unfold cancel
  dsimp only
  rw [hw, if_neg Bool.false_ne_true, heq]
  exact ⟨ts, ls, _, rfl, rfl⟩

theorem cancel_of_removed (hw : (g.waiters w).removed = true) (reason : CancelReason) :
    g.cancel w reason = g := if_pos hw

/-- The slots are as they were. -/
def SameSlots (g g' : RunInferenceGovernor) : Prop :=
  g'.active = g.active ∧ g'.maxConcurrent = g.maxConcurrent

theorem cancel_slots (g : RunInferenceGovernor) (w : Nat) (reason : CancelReason) :
    SameSlots g (g.cancel w reason) ∧ (g.cancel w reason).queue.length ≤ g.queue.length := by
  cases hw : (g.waiters w).removed with
  | true =>
    rw [cancel_of_removed hw]
    exact ⟨⟨rfl, rfl⟩, Nat.le_refl _⟩
  | false =>
    obtain ⟨ts, ls, r, -, heq⟩ := cancel_eq hw reason
    rw [heq]
    exact ⟨⟨rfl, rfl⟩, length_erase_le⟩

theorem afterCheck_eq (g : RunInferenceGovernor) (w : Nat) :
    ∃ n, g.afterCheck w = { g with reads := n } := by
  unfold afterCheck
  split
  · exact ⟨g.reads + 1, rfl⟩
  · exact ⟨g.reads, rfl⟩

theorem sound_afterCheck (h : g.Sound c m) (w : Nat) : (g.afterCheck w).Sound c m := by
  obtain ⟨n, heq⟩ := g.afterCheck_eq w
  rw [heq]
  exact h.environment n g.timers g.listeners g.aborted

/-- What comes before an element stays before its place when the element is taken out. -/
theorem take_erase {q : List Nat} {i w : Nat} (hq : q.Nodup) (hi : q[i]? = some w) :
    (q.erase w).take i = q.take i := by
  induction q generalizing i with
  | nil => rfl
  | cons v q ih =>
    rw [nodup_cons] at hq
    cases i with
    | zero => rfl
    | succ i =>
      rw [List.getElem?_cons_succ] at hi
      have hne : v ≠ w := by
        rintro rfl
        exact hq.1 (mem_of_getElem? hi)
      rw [erase_cons_tail (by simpa using hne), take_succ_cons, take_succ_cons,
        ih hq.2 hi]

/-- The loop keeps the invariant and the slots, and the best waiter so far stays in the part of the
queue that lies before the index. -/
theorem sound_scan (n i : Nat) (best : Option Nat) (h : g.Sound c none)
    (hbest : ∀ b, best = some b → b ∈ g.queue.take i) :
    (scan n i best g).2.Sound c none ∧ SameSlots g (scan n i best g).2 ∧
      ∀ b, (scan n i best g).1 = some b → b ∈ (scan n i best g).2.queue := by
  induction n generalizing i best g with
  | zero => exact ⟨h, ⟨rfl, rfl⟩, fun b hb => mem_of_mem_take (hbest b hb)⟩
  | succ n ih =>
    rw [scan]
    cases hi : g.queue[i]? with
    | none => exact ⟨h, ⟨rfl, rfl⟩, fun b hb => mem_of_mem_take (hbest b hb)⟩
    | some w =>
      have hw : (g.waiters w).removed = false := (h.queued w).mp (mem_of_getElem? hi)
      have htake : ∀ b, best = some b → b ∈ g.queue.take (i + 1) := fun b hb =>
        take_subset_take_left _ (Nat.le_succ i) (hbest b hb)
      obtain ⟨k, hcheck⟩ := g.afterCheck_eq w
      dsimp only
      rw [hw, if_neg Bool.false_ne_true]
      split
      · -- expired: the waiters before the index stay where they are
        have hsound := sound_cancel (sound_afterCheck h w) w .deadline
        have hslots := (cancel_slots (g.afterCheck w) w .deadline).1
        have hqueue : ((g.afterCheck w).cancel w .deadline).queue = g.queue.erase w := by
          rw [hcheck]
          obtain ⟨ts, ls, r, -, heq⟩ := cancel_eq (g := { g with reads := k }) hw .deadline
          rw [heq]
        have hbest' : ∀ b, best = some b →
            b ∈ ((g.afterCheck w).cancel w .deadline).queue.take (i + 1) := by
          intro b hb
          rw [hqueue]
          have := hbest b hb
          rw [← take_erase h.nodup hi] at this
          exact take_subset_take_left _ (Nat.le_succ i) this
        have hstep := ih (i + 1) best hsound hbest'
        rw [hcheck] at hslots hstep ⊢
        exact ⟨hstep.1, ⟨hstep.2.1.1.trans hslots.1, hstep.2.1.2.trans hslots.2⟩, hstep.2.2⟩
      · have hbest' : ∀ b, (if g.better w best then some w else best) = some b →
            b ∈ (g.afterCheck w).queue.take (i + 1) := by
          intro b hb
          rw [hcheck]
          split at hb
          · obtain rfl := Option.some.inj hb
            simp [take_add_one, hi]
          · exact htake b hb
        have hstep := ih (i + 1) _ (sound_afterCheck h w) hbest'
        rw [hcheck] at hstep ⊢
        exact hstep

theorem scan_queue_length (n i : Nat) (best : Option Nat) (g : RunInferenceGovernor) :
    (scan n i best g).2.queue.length ≤ g.queue.length := by
  induction n generalizing i best g with
  | zero => exact Nat.le_refl _
  | succ n ih =>
    rw [scan]
    split
    · exact Nat.le_refl _
    · next w hi =>
      obtain ⟨r, hcheck⟩ := g.afterCheck_eq w
      split
      · exact ih (i + 1) best g
      · split
        · refine Nat.le_trans (ih (i + 1) best _) ?_
          have := (cancel_slots (g.afterCheck w) w .deadline).2
          rw [hcheck] at this ⊢
          exact this
        · refine Nat.le_trans (ih (i + 1) _ _) ?_
          rw [hcheck]

/-- The length of the queue is enough turns. -/
theorem scan_enough (n k : Nat) {i : Nat} (best : Option Nat) (h : g.queue.length ≤ i + n) :
    scan (n + k) i best g = scan n i best g := by
  induction n generalizing i best g with
  | zero =>
    have hi : g.queue[i]? = none := List.getElem?_eq_none h
    cases k with
    | zero => rfl
    | succ k => rw [Nat.zero_add, scan, scan, hi]
  | succ n ih =>
    rw [Nat.succ_add, scan, scan]
    cases hi : g.queue[i]? with
    | none => rfl
    | some w =>
      obtain ⟨r, hcheck⟩ := g.afterCheck_eq w
      dsimp only
      split
      · exact ih best (by omega)
      · split
        · refine ih best ?_
          have := (cancel_slots (g.afterCheck w) w .deadline).2
          rw [hcheck] at this ⊢
          exact Nat.le_trans this (show g.queue.length ≤ i + 1 + n by omega)
        · refine ih _ ?_
          rw [hcheck]
          show g.queue.length ≤ i + 1 + n
          omega

/-! ## The pump -/

theorem select_queue (g : RunInferenceGovernor) (w : Nat) :
    (g.select w).queue = g.queue.erase w := by
  obtain ⟨ts, ls, heq⟩ := g.leave_eq w
  unfold select
  dsimp only
  rw [heq]
  rfl

theorem sound_pump (n : Nat) (h : g.Sound c none) : (pump n g).Sound c none := by
  induction n generalizing g with
  | zero => exact h
  | succ n ih =>
    rw [pump]
    split
    · next hgo =>
      obtain ⟨hsound, hslots, hmem⟩ := sound_scan g.queue.length 0 none h
        (fun b hb => nomatch hb)
      split
      · next g' heq =>
        rw [heq] at hsound
        exact hsound
      · next w g' heq =>
        rw [heq] at hsound hslots hmem
        refine ih (sound_select hsound (hmem w rfl) ?_)
        rw [hslots.1, hslots.2]
        exact hgo.2
    · exact h

/-- The length of the queue is enough turns: each turn that goes on takes a waiter from the queue. -/
theorem pump_enough (n k : Nat) (h : g.Sound c none) (hn : g.queue.length ≤ n) :
    pump (n + k) g = pump n g := by
  induction n generalizing g with
  | zero =>
    have hnil : g.queue = [] := eq_nil_of_length_eq_zero (Nat.le_zero.mp hn)
    cases k with
    | zero => rfl
    | succ k => rw [Nat.zero_add, pump, pump, if_neg (fun hgo => hgo.1 hnil)]
  | succ n ih =>
    rw [Nat.succ_add, pump, pump]
    split
    · next hgo =>
      obtain ⟨hsound, hslots, hmem⟩ := sound_scan g.queue.length 0 none h
        (fun b hb => nomatch hb)
      have hlen := scan_queue_length g.queue.length 0 none g
      split
      · rfl
      · next w g' heq =>
        rw [heq] at hsound hslots hmem hlen
        refine ih (sound_select hsound (hmem w rfl) ?_) ?_
        · rw [hslots.1, hslots.2]
          exact hgo.2
        · have hw : w ∈ g'.queue := hmem w rfl
          have hpos : 0 < g'.queue.length := length_pos_of_mem hw
          have hle : g'.queue.length ≤ g.queue.length := hlen
          rw [select_queue, length_erase_of_mem hw]
          omega
    · rfl

/-- The slot of a settled task is free. -/
theorem sound_release (h : g.Sound c none) (hid : id ∈ g.running) :
    Sound c none { g with
      running := g.running.erase id, log := g.log ++ [.settled id], active := g.active - 1 } := by
  obtain ⟨r, hr, heq⟩ := (h.running id).mp hid
  let g' : RunInferenceGovernor := { g with
    running := g.running.erase id, log := g.log ++ [.settled id], active := g.active - 1 }
  have hlog : g'.log = g.log ++ [Effect.settled id] := rfl
  have hes : ∀ e ∈ [Effect.settled id], e.id = id := by simp [Effect.id]
  have hself : g'.history id = [.recorded id r, .started id, .settled id] := by
    rw [history_self hlog hes, heq]
    rfl
  have hother : ∀ i, i ≠ id → g'.history i = g.history i := fun i hi => history_of_ne hlog hes hi
  have hne : ∀ i, g.history i = [] → i ≠ id := by
    rintro i hi rfl
    rw [heq] at hi
    cases hi
  have hpos := length_pos_of_mem hid
  refine ⟨h.enabled, h.cap, h.positive, ?_, ?_, h.nodup, h.queued, h.allocated, h.distinct, ?_, ?_,
    (fun i hi => nomatch hi), ?_, ?_, h.runningNodup.erase id, ?_⟩
  · show g.active - 1 = (g.running.erase id).length
    rw [length_erase_of_mem hid, h.active]
  · exact Nat.le_trans (Nat.sub_le _ _) h.bound
  · intro i hi
    obtain ⟨hlt, hnil⟩ := h.waiting i hi
    exact ⟨hlt, (hother i (hne i hnil)).trans hnil⟩
  · intro i hi
    have hnil := h.future i hi
    exact (hother i (hne i hnil)).trans hnil
  · rintro i hi - hw
    by_cases hii : i = id
    · subst hii
      show Departed i (g'.history i)
      rw [hself]
      exact .settled r hr
    · show Departed i (g'.history i)
      rw [hother i hii]
      exact h.departed i hi (by simp) hw
  · intro i
    show i ∈ g.running.erase id ↔ Running i (g'.history i)
    rw [h.runningNodup.mem_erase_iff]
    by_cases hii : i = id
    · subst hii
      rw [hself]
      simp [Running]
    · rw [hother i hii, h.running i]
      simp [hii]
  · show g.drained ++ g.records = (g.log ++ [Effect.settled id]).filterMap Effect.record?
    rw [filterMap_append, ← h.buffered]
    simp [Effect.record?]

theorem sound_settle (h : g.Sound c none) (hid : id ∈ g.running) : (g.settle id).Sound c none :=
  sound_pump _ (sound_release h hid)

/-! ## Runs -/

theorem sound_abort (h : g.Sound c none) (signal : Nat) : (g.abort signal).Sound c none := by
  unfold abort
  dsimp only
  split
  · exact h
  · have hstart := h.environment g.reads g.timers g.listeners (signal :: g.aborted)
    generalize ((g.listeners.filter fun l => l.1 = signal).map Prod.snd) = called
    generalize ({ g with aborted := signal :: g.aborted } : RunInferenceGovernor) = x at hstart ⊢
    induction called generalizing x with
    | nil => exact hstart
    | cons w called ih =>
      refine ih _ (sound_cancel ?_ w .cancelled)
      exact hstart.environment x.reads x.timers (x.listeners.erase (signal, w)) x.aborted

theorem sound_fire (h : g.Sound c none) (w : Nat) : (g.fire w).Sound c none := by
  unfold fire
  split
  · exact sound_cancel (h.environment g.reads (g.timers.erase w) g.listeners g.aborted) w .deadline
  · exact h

theorem sound_step (h : g.Sound c none) (e : Event) : (step g e).Sound c none := by
  cases e with
  | admitRequest request => exact sound_admitRequest h request
  | settled id =>
    unfold step
    dsimp only
    split
    · next hid => exact sound_settle h hid
    · exact h
  | abort signal => exact sound_abort h signal
  | timer w => exact sound_fire h w
  | drain => exact sound_drain h

theorem sound_new {maxConcurrent : Number} {clock : Nat → Number}
    (h : (new maxConcurrent clock).enabled = true) :
    (new maxConcurrent clock).Sound maxConcurrent.toNat none := by
  have hon := h
  simp only [new, Bool.and_eq_true, decide_eq_true_eq] at hon
  have hnone : ∀ i, ¬ (new maxConcurrent clock).Waiting i := by
    rintro i ⟨w, hw, -⟩
    cases hw
  have hrunning : ∀ i, i ∈ (new maxConcurrent clock).running ↔
      Running i ((new maxConcurrent clock).history i) := by
    intro i
    simp [new, history, Running]
  exact ⟨h, rfl, Number.toNat_pos hon.1 hon.2, rfl, Nat.zero_le _, nodup_nil, by simp [new],
    by simp [new], by simp [new], fun i hi => absurd hi (hnone i), fun i _ => rfl,
    (fun i hi => nomatch hi), (fun i hi => absurd hi (Nat.not_lt_zero i)), hrunning, nodup_nil,
    rfl⟩

theorem sound_run {maxConcurrent : Number} {clock : Nat → Number}
    (h : (new maxConcurrent clock).enabled = true) (es : List Event) :
    (Machine.run step (new maxConcurrent clock) es).Sound maxConcurrent.toNat none :=
  Machine.invariant (I := Sound maxConcurrent.toNat none)
    (fun _ e hg => sound_step hg e) (sound_new h) es

/-! ## Safety -/

/-- How often the task of the request `id` was started. -/
def starts (g : RunInferenceGovernor) (id : Nat) : Nat :=
  (g.history id).countP fun
    | .started _ => true
    | _ => false

def settlements (g : RunInferenceGovernor) (id : Nat) : Nat :=
  (g.history id).countP fun
    | .settled _ => true
    | _ => false

def rejections (g : RunInferenceGovernor) (id : Nat) : Nat :=
  (g.history id).countP fun
    | .rejected _ _ => true
    | _ => false

/-- The records of the request `id`, in the order in which the buffer got them. -/
def telemetry (g : RunInferenceGovernor) (id : Nat) : List GovernorQueueTelemetry :=
  (g.history id).filterMap Effect.record?

/-- The request `id` was offered and does not wait. -/
def Left (g : RunInferenceGovernor) (id : Nat) : Prop := id < g.requests ∧ ¬ g.Waiting id

structure Safe (cap : Nat) (g : RunInferenceGovernor) : Prop where
  slots : g.running.length = g.active ∧ g.active ≤ cap
  running : g.running.Nodup ∧ ∀ id, id ∈ g.running ↔ g.starts id ≠ 0 ∧ g.settlements id = 0
  once : ∀ id, g.starts id ≤ 1
  rejected : ∀ id, g.rejections id ≠ 0 → g.starts id = 0
  buffered : g.drained ++ g.records = g.log.filterMap Effect.record?
  recorded : ∀ id, g.Left id →
    ∃ r, g.telemetry id = [r] ∧ (r.cancelledBeforeDispatch = true ↔ g.starts id = 0)
  unrecorded : ∀ id, ¬ g.Left id → g.telemetry id = []

/-- A request has an empty history, or it has departed. -/
theorem Sound.history_cases (h : g.Sound c none) (id : Nat) :
    (¬ g.Left id ∧ g.history id = []) ∨ g.Left id ∧ Departed id (g.history id) := by
  by_cases hlt : id < g.requests
  · by_cases hw : g.Waiting id
    · exact .inl ⟨fun hl => hl.2 hw, (h.waiting id hw).2⟩
    · exact .inr ⟨⟨hlt, hw⟩, h.departed id hlt (by simp) hw⟩
  · exact .inl ⟨fun hl => hlt hl.1, h.future id (Nat.le_of_not_lt hlt)⟩

theorem Sound.safe (h : g.Sound c none) : g.Safe c := by
  refine ⟨⟨h.active.symm, h.cap ▸ h.bound⟩, ⟨h.runningNodup, ?_⟩, ?_, ?_, h.buffered, ?_, ?_⟩
  · intro id
    rw [h.running id, starts, settlements]
    rcases h.history_cases id with ⟨-, hnil⟩ | ⟨-, hd⟩
    · rw [hnil]
      simp [Running]
    · generalize g.history id = es at hd ⊢
      cases hd with
      | started r hr => simp [Running, hr]
      | settled r hr => simp [Running]
      | rejected r reason hr => simp [Running]
  · intro id
    rw [starts]
    rcases h.history_cases id with ⟨-, hnil⟩ | ⟨-, hd⟩
    · rw [hnil]
      exact Nat.zero_le 1
    · generalize g.history id = es at hd ⊢
      cases hd <;> simp
  · intro id
    rw [starts, rejections]
    rcases h.history_cases id with ⟨-, hnil⟩ | ⟨-, hd⟩
    · simp [hnil]
    · generalize g.history id = es at hd ⊢
      cases hd <;> simp
  · intro id hl
    rw [starts, telemetry]
    rcases h.history_cases id with ⟨hnot, -⟩ | ⟨-, hd⟩
    · exact absurd hl hnot
    · generalize g.history id = es at hd ⊢
      cases hd with
      | started r hr => exact ⟨r, rfl, by simp [hr]⟩
      | settled r hr => exact ⟨r, rfl, by simp [hr]⟩
      | rejected r reason hr => exact ⟨r, rfl, by simp [hr]⟩
  · intro id hl
    rw [telemetry]
    rcases h.history_cases id with ⟨-, hnil⟩ | ⟨hleft, -⟩
    · rw [hnil]
      rfl
    · exact absurd hleft hl

/-- In every run of an enabled governor the active count is the number of running tasks and within the
cap, no task is started twice or after a rejection, and each request that has left admission has one
record, which says whether its task was started. -/
theorem governor_safe {maxConcurrent : Number} {clock : Nat → Number}
    (h : (new maxConcurrent clock).enabled = true) (es : List Event) :
    (Machine.run step (new maxConcurrent clock) es).Safe maxConcurrent.toNat :=
  (sound_run h es).safe

/-- One slot: the first request runs, the second is cancelled while it waits. -/
theorem governor_safe_cancelled :
    (Machine.run step (new 1 fun _ => 0)
      [.admitRequest ⟨.advisory, "e", none, none⟩, .admitRequest ⟨.authoritative, "e", some 0, none⟩,
        .abort 0]).Safe (Number.toNat 1) :=
  governor_safe (by decide +kernel) _

end PrReviewer.Governor.RunInferenceGovernor
