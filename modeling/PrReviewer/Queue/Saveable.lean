import PrReviewer.Queue.Saved

/-!
# Every state can be saved

A snapshot is accepted when every time in it is finite and not negative. The times a record gets are
the clock, and sums of the clock with a configured span: the settle window, the lease time, the delay
of a publish, the backoff of a retry. `saveable_run`: while the sums that are written are finite
(`InRange`), the snapshot of every state is accepted and both backends give it back.

The code does not check the sums. With a large clock they are infinite; and with `retryBaseMs = 0` the
backoff of the 1025th attempt is `0 * Infinity`, which is NaN (`unsaveable`).
-/

open Js Number

namespace PrReviewer.Queue

variable {G : Guards} {o : SchedulerOptions} {now : Number} {c c' : Controller}

/-! ## Configured spans -/

theorem zero_le_retryMax (o : SchedulerOptions) : 0 ≤ o.retryMaxMs :=
  zero_le_of_le o.retryBase_ok.2 o.retryMax_ok.2

theorem zero_le_publishRetryDelay (o : SchedulerOptions) : 0 ≤ publishRetryDelayMs o := by
  rw [publishRetryDelayMs, mathMax_zero o.retryBase_ok.2]
  exact zero_le_mathMin o.retryBase_ok.2 (zero_le_retryMax o)

theorem backoff_span (o : SchedulerOptions) (attempt : Nat) :
    (backoffMs o attempt).isNaN = true ∨ 0 ≤ backoffMs o attempt :=
  isNaN_or_zero_le_mathMin (zero_le_mul o.retryBase_ok.2 (zero_le_twoPow _)) (zero_le_retryMax o)

/-! ## What keeps a record in order -/

/-- A retry of `r` gets a finite time. -/
def RetryInRange (o : SchedulerOptions) (now : Number) (status : OutcomeStatus) (r : JobRecord) :
    Prop :=
  status = .failed → r.attempt < o.maxAttempts → r.cancelRequested = false →
    (now + backoffMs o r.attempt).isFinite = true

instance (o : SchedulerOptions) (now : Number) (status : OutcomeStatus) (r : JobRecord) :
    Decidable (RetryInRange o now status r) := by
  unfold RetryInRange; infer_instance

/-- The sums that a stretch at `now` writes are finite. -/
def Guards.inRange (o : SchedulerOptions) (now : Number) : Guards :=
  { Guards.none with
    settle := fun _ status r => RetryInRange o now status r
    renew := fun _ _ _ => (now + o.leaseTtlMs).isFinite = true
    insert := (now + o.settleWindowMs).isFinite = true
    dispatch := fun _ _ => (now + o.leaseTtlMs).isFinite = true
    again := (now + publishRetryDelayMs o).isFinite = true }

/-- What the guards of a stretch have to say for the times. -/
structure Timely (G : Guards) (o : SchedulerOptions) (now : Number) : Prop where
  clock : IsTime now
  settle : ∀ pending status r, G.settle pending status r → RetryInRange o now status r
  renew : ∀ log r owner, G.renew log r owner → (now + o.leaseTtlMs).isFinite = true
  insert : G.insert → (now + o.settleWindowMs).isFinite = true
  dispatch : ∀ c r, G.dispatch c r → (now + o.leaseTtlMs).isFinite = true
  again : G.again → (now + publishRetryDelayMs o).isFinite = true

theorem timely_inRange (h : IsTime now) : Timely (Guards.inRange o now) o now :=
  ⟨h, fun _ _ _ h => h, fun _ _ _ h => h, fun h => h, fun _ _ h => h, fun h => h⟩

theorem Timely.inPass (h : Timely G o now) : Timely G.inPass o now :=
  ⟨h.clock, fun _ _ _ h => h.elim, fun _ _ _ h => h.elim, fun h => h.elim, h.dispatch, h.again⟩

theorem isTime_lease (hn : IsTime now) (h : (now + o.leaseTtlMs).isFinite = true) :
    IsTime (now + o.leaseTtlMs) :=
  hn.add ⟨o.leaseTtl_ok.1, le_of_lt o.leaseTtl_ok.2⟩ h

theorem RecordOk.change {j : String} {r r' : JobRecord} (h : RecordOk r) (hG : Timely G o now)
    (hc : Change G o now c j r r') : RecordOk r' := by
  obtain ⟨hjob, ht, hkey⟩ := h
  obtain ⟨h1, h2, h3, h4, h5⟩ := validTimes_iff.mp ht
  have hn := hG.clock
  cases hc with
  | stamp => exact ⟨hjob, ht, hkey⟩
  | drop s reason newer owner expires hs hterm hf hl hd =>
    have hx : IsTime expires := by
      rcases hl with ⟨-, -, rfl⟩ | ⟨-, rfl⟩
      · exact h4
      · exact isTime_zero
    exact ⟨hjob, validTimes_iff.mpr ⟨h1, h2, h3, hx, hn⟩, hkey⟩
  | requeue => exact ⟨hjob, validTimes_iff.mpr ⟨h1, hn, isTime_zero, isTime_zero, hn⟩, hkey⟩
  | retry hx ha hcr hf hg =>
    have hb := hn.add_of (backoff_span o r.attempt) (hG.settle _ _ _ hg rfl ha hcr)
    exact ⟨hjob, validTimes_iff.mpr ⟨h1, hn, hb, isTime_zero, hn⟩, hkey⟩
  | result => exact ⟨hjob, validTimes_iff.mpr ⟨h1, h2, h3, h4, hn⟩, hkey⟩
  | complete next hp hm hf hx =>
    have hnext : IsTime next := by
      rcases hx with rfl | rfl
      · exact h3
      · exact isTime_zero
    exact ⟨hjob, validTimes_iff.mpr ⟨h1, h2, hnext, isTime_zero, hn⟩, hkey⟩
  | again hp hg =>
    have hd := hn.add_of (.inr (zero_le_publishRetryDelay o)) (hG.again hg)
    exact ⟨hjob, validTimes_iff.mpr ⟨h1, h2, hd, isTime_zero, hn⟩, hkey⟩
  | renew owner ho hf hx hg =>
    have hl := isTime_lease hn (hG.renew _ _ _ hg)
    exact ⟨hjob, validTimes_iff.mpr ⟨h1, h2, h3, hl, hn⟩, hkey⟩

theorem RecordOk.recovery {r r' : JobRecord} {n : Nat} (h : RecordOk r) (hn : IsTime now)
    (hr : Recovery now n r r') : RecordOk r' := by
  obtain ⟨h1, h2, h3, h4, h5⟩ := validTimes_iff.mp h.times
  cases hr with
  | keep => exact h
  | keepPublishing =>
    exact ⟨h.job, validTimes_iff.mpr ⟨h1, h2, h3, isTime_zero, hn⟩, h.prKey⟩
  | requeue =>
    exact ⟨h.job, validTimes_iff.mpr ⟨h1, hn, isTime_zero, isTime_zero, hn⟩, h.prKey⟩
  | fail => exact ⟨h.job, validTimes_iff.mpr ⟨h1, h2, h3, isTime_zero, hn⟩, h.prKey⟩

/-! ## The invariant -/

/-- The records in memory and in the store are in order, and so is the clock of every pending
publish. -/
structure InOrder (c : Controller) : Prop where
  memory : ∀ j r, c.records.get? j = some r → RecordOk r
  store : SnapshotOk (lastSaved c.log).records
  publishes : ∀ call ∈ c.publishes, IsTime call.now

theorem InOrder.boot {log : List Effect} (h : SnapshotOk (lastSaved log).records) :
    InOrder (boot log) := by
  refine ⟨fun j r hj => h.record r ?_, h, fun _ h => absurd h List.not_mem_nil⟩
  exact ((get?_saved h).mp hj).1

theorem ordered_set {m : Map String JobRecord} {j : String} {r : JobRecord}
    (h : ∀ j r, m.get? j = some r → RecordOk r) (hr : RecordOk r) :
    ∀ i x, (m.set j r).get? i = some x → RecordOk x := by
  intro i x hx
  rw [Map.get?_set] at hx
  split at hx
  · cases hx; exact hr
  · exact h i x hx

theorem InOrder.atomic (h : InOrder c) (hG : Timely G o now) (hs : Atomic G o now c c') :
    InOrder c' := by
  have hstore := savedOk_atomic hs h.store
  have hn := hG.clock
  cases hs with
  | change hj hc =>
    exact ⟨ordered_set h.memory ((h.memory _ _ hj).change hG hc), hstore, h.publishes⟩
  | insert hv hj hr hg =>
    obtain ⟨-, hf, h0, rfl⟩ := newJobRecord_ok hr
    have hready := hn.add ⟨hf, h0⟩ (hG.insert hg)
    refine ⟨ordered_set h.memory ?_, hstore, h.publishes⟩
    exact ⟨hv, validTimes_iff.mpr ⟨hn, hready, isTime_zero, isTime_zero, hn⟩, rfl⟩
  | @dispatch r running hj he ha hsib hc hf hr hg =>
    obtain ⟨-, -, rfl⟩ := runningRecord_ok hr
    obtain ⟨hjob, ht, hkey⟩ := h.memory _ _ hj
    obtain ⟨h1, h2, h3, -, -⟩ := validTimes_iff.mp ht
    have hl := isTime_lease hn (hG.dispatch c r hg)
    refine ⟨ordered_set h.memory ?_, hstore, h.publishes⟩
    exact ⟨hjob, validTimes_iff.mpr ⟨h1, h2, h3, hl, hn⟩, hkey⟩
  | publish hj hp hm hcall =>
    refine ⟨h.memory, hstore, fun call hm => ?_⟩
    rcases List.mem_cons.mp hm with rfl | hm
    · rw [hcall]; exact hn
    · exact h.publishes call hm
  | save => exact ⟨h.memory, hstore, h.publishes⟩
  | adopt hf hok hr hg hrec =>
    refine ⟨fun j r hj => ?_, hstore, h.publishes⟩
    rw [get?_adopt hok hr, Option.map_eq_some_iff] at hj
    obtain ⟨x, hx, rfl⟩ := hj
    exact (hok.record x ((get?_saved hok).mp hx).1).recovery hn (reconcileRecord_recovery _ _ _)
  | book hb =>
    have hq := hb.quiet
    exact ⟨by rw [hq.records]; exact h.memory, hstore,
      fun call hm => h.publishes call (hq.publishes call hm)⟩

/-- Records in order, each under its own id, are a snapshot in order. -/
theorem InOrder.snapshotOk (h : InOrder c) (hk : Keyed c.records) : SnapshotOk c.records.values :=
  ⟨fun r hr => h.memory _ r (get?_of_mem_values hk hr), nodup_jobIds hk⟩

/-! ## Runs -/

/-- Every sum of the clock and a configured span that the label writes is finite. -/
def InRange (o : SchedulerOptions) (c : Controller) (l : Label) : Prop :=
  match l.event with
  | .enqueue job => c.closed = false → ∀ validated ∈ validateReviewJob job,
    c.records.get? validated.jobId = none → (l.now + o.settleWindowMs).isFinite = true
  | .tick | .shutdown _ | .drainStep _ =>
    ∀ r ∈ c.records.values, dispatchable l.now r = true → (l.now + o.leaseTtlMs).isFinite = true
  | .heartbeat j owner => ∀ r ∈ c.records.get? j, leaseIsValid r owner l.now = true →
    (l.now + o.leaseTtlMs).isFinite = true
  | .adoptRecovered j owner =>
    owner ≠ "" → ∀ r ∈ recoverable c j, (l.now + o.leaseTtlMs).isFinite = true
  | .resolveRecovered j outcome =>
    ∀ r ∈ recoverable c j, RetryInRange o l.now outcome.status r
  | .executorSettled j token outcome => (j, token) ∈ c.executions →
    ∀ r ∈ c.records.get? j, r.leaseOwner = token → RetryInRange o l.now outcome.status r
  | .publishSettled call published => call ∈ c.publishes → published = false →
    (call.now + publishRetryDelayMs o).isFinite = true
  | .settleDone _ _ | .recover => True

instance (o : SchedulerOptions) (c : Controller) (l : Label) : Decidable (InRange o c l) := by
  delta InRange
  haveI := lawfulBEq_pairs
  rcases l with ⟨_ | _, now, store, crash⟩ <;> infer_instance

/-- The guards of a label: those of a scheduling pass where there is one. -/
def guardsIn (o : SchedulerOptions) (l : Label) : Guards :=
  match l.event with
  | .tick | .shutdown _ | .drainStep _ => (Guards.inRange o (l.event.clock l.now)).inPass
  | _ => Guards.inRange o (l.event.clock l.now)

theorem timely_guardsIn {l : Label} (h : IsTime (l.event.clock l.now)) :
    Timely (guardsIn o l) o (l.event.clock l.now) := by
  have ht := timely_inRange (o := o) h
  unfold guardsIn
  split
  · exact ht.inPass
  · exact ht.inPass
  · exact ht.inPass
  · exact ht

theorem eventGuard_inRange {l : Label} (hl : InRange o c l) :
    EventGuard (guardsIn o l) o l.now c l.event := by
  have pass : ∀ c' : Controller, c'.records = c.records →
      (∀ r ∈ c.records.values, dispatchable l.now r = true →
        (l.now + o.leaseTtlMs).isFinite = true) →
      TickGuard (Guards.inRange o l.now).inPass o l.now c' := fun c' hrec hp =>
    tickGuard_pass (Q := fun _ _ => (l.now + o.leaseTtlMs).isFinite = true) (fun _ => trivial)
      (fun _ _ h => h) (fun _ _ _ h _ => h)
      fun j r hr hd => hp r (Map.mem_values_iff.mpr ⟨j, by rw [← hrec]; exact hr⟩) hd
  unfold InRange at hl
  unfold guardsIn
  cases he : l.event with
  | settleDone => exact trivial
  | recover => exact ⟨fun _ _ _ => trivial, trivial⟩
  | tick | shutdown | drainStep =>
    rw [he] at hl
    exact pass _ rfl hl
  | enqueue job =>
    rw [he] at hl
    exact fun v ho hv hn => hl ho v hv hn
  | heartbeat | adoptRecovered | resolveRecovered | executorSettled | publishSettled =>
    rw [he] at hl
    exact hl

/-- A promise that is not pending resumes nothing. -/
theorem exec_not_pending {store : StoreOutcome} {call : PublishCall} {published : Bool}
    (h : call ∉ c.publishes) :
    (exec o store now (.publishSettled call published)).final c = c := by
  have he : exec o store now (.publishSettled call published) c = .ok ⟨⟩ c := by
    change (if _ then _ else _ : Op Unit) c = _
    rw [if_neg h]
    rfl
  rw [Action.final, he]

theorem inOrder_step {l : Label} (h : InOrder c) (hk : Keyed c.records) (hn : IsTime l.now)
    (hl : InRange o c l) : InOrder (step o c l) := by
  have go : IsTime (l.event.clock l.now) → InOrder (step o c l) := fun ht =>
    step_invariant (fun _ _ _ hi hs => hi.atomic (timely_guardsIn ht) hs)
      (fun _ _ hi => InOrder.boot hi.store) hk (eventGuard_inRange hl) h
  cases he : l.event with
  | publishSettled call published =>
    by_cases hm : call ∈ c.publishes
    · exact go (by rw [he]; exact h.publishes call hm)
    · -- nothing happens, but the process may die
      have hfinal : (exec o l.store l.now (.publishSettled call published)).final c = c :=
        exec_not_pending hm
      unfold step
      rw [he, hfinal]
      cases l.crash with
      | none => exact h
      | some k => exact InOrder.boot (by simpa [cutLog] using h.store)
  | _ => exact go (by rw [he]; exact hn)

/-- **Every state can be saved** and is loaded as it was, with a clock of finite non-negative times and
while the sums that are written are finite. -/
theorem saveable_run {ls : List Label} (hclock : ∀ l ∈ ls, IsTime l.now)
    (h : Along o (InRange o) fresh ls) :
    parseQueueSnapshot (snapshotValue (run o fresh ls).records.values) =
        .ok ⟨(run o fresh ls).records.values⟩ ∧
      inMemoryReload ⟨(run o fresh ls).records.values⟩ = .ok ⟨(run o fresh ls).records.values⟩ ∧
      jsonFileReload ⟨(run o fresh ls).records.values⟩ =
        .ok ⟨(run o fresh ls).records.values.map JobRecord.plusZero⟩ := by
  have hall : Keyed (run o fresh ls).records ∧ InOrder (run o fresh ls) :=
    run_induct (I := fun c => Keyed c.records ∧ InOrder c)
      ⟨keyed_boot [], InOrder.boot ⟨by rintro r ⟨⟩, .nil⟩⟩ ((along_of_mem hclock _).and h)
      fun c l hi hl => ⟨keyed_step hi.1, inOrder_step hi.2 hi.1 hl.1 hl.2⟩
  have hok := hall.2.snapshotOk hall.1
  exact ⟨parseQueueSnapshot_snapshotValue.mpr ⟨rfl, hok⟩, rfl, jsonFileReload_of_ok hok⟩

/-- A failed attempt that is retried. -/
theorem saveable_run_retry :
    let ls := [(enqueueOf "a").at 0, Event.tick.at 0,
      (Event.executorSettled "a" "lease-a-1" ⟨.failed, "", ""⟩).at 1]
    (run exampleOptions fresh ls).records.values.map (fun r => (r.state, r.nextRetryAtMs)) =
        [(.queued, 1)] ∧
      parseQueueSnapshot (snapshotValue (run exampleOptions fresh ls).records.values) =
        .ok ⟨(run exampleOptions fresh ls).records.values⟩ := by
  intro ls
  exact ⟨by decide +kernel, (saveable_run (by decide +kernel) (by decide +kernel)).1⟩

/-- A settle window near the largest number. -/
def wideWindow : SchedulerOptions :=
  { exampleOptions with settleWindowMs := 1e308, settleWindow_ok := by decide +kernel }

/-- **A state that cannot be saved**: the end of the settle window is infinite, and the snapshot of
the enqueued record is refused. And a backoff without a base is NaN from the 1025th attempt on. -/
theorem unsaveable :
    let ls := [(enqueueOf "a").at 1e308]
    (∀ l ∈ ls, IsTime l.now) ∧
      (run wideWindow fresh ls).records.values.map (fun r => r.readyAtMs.isFinite) = [false] ∧
      (parseQueueSnapshot (snapshotValue (run wideWindow fresh ls).records.values)).toBool =
        false ∧
      exampleOptions.retryBaseMs = 0 ∧ (backoffMs exampleOptions 1025).isNaN = true := by
  decide +kernel

end PrReviewer.Queue
