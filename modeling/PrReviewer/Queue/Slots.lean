import PrReviewer.Queue.Saved

/-!
# Slots are given back

A record that blocks its `prKey` gives the slot back when it settles or when its lease runs out. The
lease pass skips a record whose lease time is 0 (`leaseLapsed`), so the second way is open only to a
record with a positive lease time (`Lapsing`). Recovery establishes that for every valid snapshot, and
every step keeps it but one: the publish of an *empty* result that fails. `runPublish` clears the
lease of the record, since a record that waits for its publish needs none; but a record without a
result head is not exempt from the slot count, and no tick can free it again (`zombie_slot`).

`slots_run`: while no such publish fails (`KeepsLease`), every blocking record of every state has a
positive lease time, and a tick at or after it takes the record out of the blocking set. The same tick
may dispatch the record again, as a new attempt.
-/

open Js Relation List

namespace PrReviewer.Queue

variable {G : Guards} {o : SchedulerOptions} {now : Number} {store : StoreOutcome}
  {c c' : Controller}

/-! ## The invariant -/

/-- Every record that blocks its `prKey` has a lease that runs out. -/
def Lapsing (records : Map String JobRecord) : Prop :=
  ∀ j r, records.get? j = some r → r.blocking = true → 0 < r.leaseExpiresAtMs

variable {m : Map String JobRecord} {r r' : JobRecord} {j : String} {n : Nat} {l : Label}

theorem Lapsing.set (h : Lapsing m) {j : String} {r : JobRecord}
    (hr : r.blocking = true → 0 < r.leaseExpiresAtMs) : Lapsing (m.set j r) := by
  intro i x hx
  rw [Map.get?_set] at hx
  split at hx
  · cases hx; exact hr
  · exact h i x hx

/-- The lease times that a stretch at `now` writes are positive, and it puts no publish off. -/
def Guards.leasing (o : SchedulerOptions) (now : Number) : Guards :=
  { Guards.none with
    renew := fun _ _ _ => 0 < now + o.leaseTtlMs
    dispatch := fun _ _ => 0 < now + o.leaseTtlMs
    again := False }

/-- What the guards of a stretch have to say for the leases. -/
structure Leasing (G : Guards) (o : SchedulerOptions) (now : Number) : Prop where
  renew : ∀ log r owner, G.renew log r owner → 0 < now + o.leaseTtlMs
  dispatch : ∀ c r, G.dispatch c r → 0 < now + o.leaseTtlMs
  again : ¬G.again

theorem leasing : Leasing (Guards.leasing o now) o now :=
  ⟨fun _ _ _ h => h, fun _ _ h => h, id⟩

theorem Leasing.inPass (h : Leasing G o now) : Leasing G.inPass o now :=
  ⟨fun _ _ _ h => h.elim, h.dispatch, h.again⟩

theorem blocking_of_running (h : r.state = .running) : r.blocking = true := by
  simp [JobRecord.blocking, JobRecord.durable, h, isActiveState]

theorem not_blocking_of_isDropState (h : isDropState r.state = true) :
    r.blocking = false := by
  cases hs : r.state <;> simp_all [isDropState, JobRecord.blocking, isActiveState]

/-- No change makes a record blocking that was not. -/
theorem Change.blocking (hc : Change G o now c j r r')
    (hb : r'.blocking = true) : r.blocking = true := by
  cases hc with
  | stamp | again | renew => exact hb
  | drop s reason newer owner expires hs =>
    rw [not_blocking_of_isDropState hs] at hb
    cases hb
  | requeue | retry | complete => cases hb
  | result head hr => exact blocking_of_running hr

theorem Change.lapsing (hG : Leasing G o now)
    (hc : Change G o now c j r r') (h : r.blocking = true → 0 < r.leaseExpiresAtMs)
    (hb : r'.blocking = true) : 0 < r'.leaseExpiresAtMs := by
  have hbr := hc.blocking hb
  cases hc with
  | stamp | result => exact h hbr
  | drop s reason newer owner expires hs =>
    rw [not_blocking_of_isDropState hs] at hb
    cases hb
  | requeue | retry | complete => cases hb
  | again hp hg => exact (hG.again hg).elim
  | renew owner ho hn hx hg => exact hG.renew _ _ _ hg

/-- A lease that recovery leaves alone runs out. -/
theorem lease_of_recovery (hok : RecordOk r)
    (hb : (reconcileRecord now n r).blocking = true) :
    0 < (reconcileRecord now n r).leaseExpiresAtMs := by
  have ht := (validTimes_iff.mp hok.times).2.2.2.1
  by_cases hv : recoveryVerdict now n r = .keep
  · have he : reconcileRecord now n r = r := by rw [reconcileRecord, hv]
    rw [he] at hb ⊢
    have ha : isActiveState r.state = true := by
      simp only [JobRecord.blocking, Bool.and_eq_true] at hb
      exact hb.1
    have hl : leaseGone r now = false := by
      by_contra hl
      rw [Bool.not_eq_false] at hl
      have hd := not_durable_of_blocking hb
      simp only [JobRecord.durable] at hd
      revert hv
      rw [recoveryVerdict, ha, hl]
      simp only [hd, Bool.not_true, Bool.false_eq_true, if_false]
      split <;> simp
    simp only [leaseGone, Bool.or_eq_false_iff] at hl
    refine Number.lt_of_le_of_not_beq ht.2 ?_
    simpa using hl.1.2
  · obtain ⟨hd, hv'⟩ | ⟨-, -, hv'⟩ | ⟨-, hv'⟩ := durable_or_blocking hv
    · have hnd := not_durable_of_blocking hb
      rw [reconcileRecord, hv'] at hnd
      exact absurd hd (by simp [show r.durable = false from hnd])
    · rw [reconcileRecord, hv'] at hb
      cases hb
    · rw [reconcileRecord, hv'] at hb
      cases hb

/-- The records that recovery adopts. -/
theorem lapsing_adopt {log : List Effect} {records : Map String JobRecord}
    (hk : SnapshotOk (lastSaved log).records)
    (hr : recordsOf ⟨(lastSaved log).records.map (reconcileRecord now n)⟩ = some records) :
    Lapsing records := by
  intro j r hj hb
  rw [get?_adopt hk hr, Option.map_eq_some_iff] at hj
  obtain ⟨x, hx, rfl⟩ := hj
  exact lease_of_recovery (hk.record x ((get?_saved hk).mp hx).1) hb

theorem Lapsing.atomic (h : Lapsing c.records) (hG : Leasing G o now) (hs : Atomic G o now c c') :
    Lapsing c'.records := by
  cases hs with
  | change hj hc => exact h.set (hc.lapsing hG (h _ _ hj))
  | insert hv hj hr hg =>
    obtain ⟨-, -, -, rfl⟩ := newJobRecord_ok hr
    exact h.set nofun
  | dispatch hj he ha hsib hc hf hr hg =>
    obtain ⟨-, -, rfl⟩ := runningRecord_ok hr
    exact h.set fun _ => hG.dispatch _ _ hg
  | publish | save => exact h
  | adopt hn hk hr hg hrec => exact lapsing_adopt hk hr
  | book hb => rw [hb.quiet.records]; exact h

/-! ## Recovery from a valid snapshot -/

/-- A stretch that leaves the records alone. -/
def SameRecords (c c' : Controller) : Prop := c'.records = c.records

theorem save_sameRecords : Moves SameRecords c (save store) (fun _ _ => True) := by
  refine .get (.lift fun s _ => ?_)
  cases store with
  | committed => exact .step rfl trivial
  | committedThenThrew => exact .assign rfl .throw
  | failed => exact .throw

theorem records_of_sameRecords {α : Type} {m : Op α} {Q : α → Controller → Prop}
    (h : Moves SameRecords c m Q) : (m.final c).records = c.records :=
  invariant_of_path (I := fun s => s.records = c.records) h.path (fun _ _ hs ht => ht.trans hs) rfl

/-- Recovery of a valid snapshot adopts the reconciled records, also when it cannot save them. -/
theorem recover_lapsing (hn : now.isFinite = true) (hk : SnapshotOk (lastSaved c.log).records) :
    Lapsing ((recover o store now).final c).records := by
  obtain ⟨records, hr⟩ : ∃ m,
      recordsOf ⟨(lastSaved c.log).records.map (reconcileRecord now o.maxAttempts)⟩ = some m := by
    refine recordsOf_of_nodup ?_
    rw [List.map_map, map_congr_left fun r _ => ?_]
    · exact hk.distinct
    · exact congrArg ReviewJob.jobId (reconcileRecord_frame now o.maxAttempts r).1
  have hrec : reconcileRecoveredSnapshot (lastSaved c.log) now o.maxAttempts = .ok {
      snapshot := ⟨(lastSaved c.log).records.map (reconcileRecord now o.maxAttempts)⟩
      requeued := movedJobIds now o.maxAttempts .requeue (lastSaved c.log).records
      failed := movedJobIds now o.maxAttempts .fail (lastSaved c.log).records } := by
    rw [reconcileRecoveredSnapshot, hn, parseQueueSnapshot_snapshotValue.mpr ⟨rfl, hk⟩]
    rfl
  have hfinal : (recover o store now).final c =
      (do save store
          pure (movedJobIds now o.maxAttempts .requeue (lastSaved c.log).records,
            movedJobIds now o.maxAttempts .fail (lastSaved c.log).records) : Op _).final
        { c with records, controllers := Map.empty } := by
    refine (Action.final_bind (m := get) rfl).trans ?_
    rw [hrec]
    refine (Action.final_bind rfl).trans ?_
    dsimp only
    rw [hr]
    rfl
  rw [hfinal, records_of_sameRecords (Q := fun _ _ => True)
    (save_sameRecords.bind fun _ _ _ => .pure trivial)]
  exact lapsing_adopt hk hr

/-! ## A settled publish -/

/-- The settled `call` makes `r'` of its record `r`. -/
structure Settles (o : SchedulerOptions) (c : Controller) (call : PublishCall) (published : Bool)
    (r r' : JobRecord) : Prop where
  pending : call ∈ c.publishes
  current : c.records.get? call.jobId = some r
  publishing : r.state = .publishing
  lease : call.requireLeaseMatch = true → r.leaseOwner = call.token
  result : publishedRecord o c.records r published call.now = .ok r'

/-- A settled publish leaves the records alone or settles its own. -/
theorem publishSettled_records (o : SchedulerOptions) (store : StoreOutcome) (c : Controller)
    (call : PublishCall) (published : Bool) :
    ((publishSettled o store call published).final c).records = c.records ∨
      ∃ r r', Settles o c call published r r' ∧
        ((publishSettled o store call published).final c).records =
          c.records.set call.jobId r' := by
  let P (s : Controller) : Prop := s.records = c.records ∨
    ∃ r r', Settles o c call published r r' ∧ s.records = c.records.set call.jobId r'
  have hm : Moves (fun _ s' => P s') c (publishSettled o store call published) (fun _ _ => True) := by
    refine .get (.ite (fun hcall => .assign (.inl rfl) ?_) fun _ => .pure trivial)
    cases hj : c.records.get? call.jobId with
    | none => exact .pure trivial
    | some r =>
      refine .ite (fun _ => .pure trivial) fun hx => .lift fun r' hr' => ?_
      simp only [Bool.or_eq_true, Bool.and_eq_true, decide_eq_true_eq, not_or, not_not,
        not_and] at hx
      have hp : P { c with
          publishes := c.publishes.erase call
          publishInFlight := c.publishInFlight.filter (fun j => j ≠ call.jobId)
          records := c.records.set call.jobId r' } :=
        .inr ⟨r, r', ⟨hcall, hj, hx.1, hx.2, hr'⟩, rfl⟩
      refine .assign hp (.get (.lift fun s _ => ?_))
      cases store with
      | committed => exact .step hp trivial
      | committedThenThrew => exact .assign hp .throw
      | failed => exact .throw
  exact invariant_of_path (I := P) hm.path (fun _ _ _ h => h) (.inl rfl)

theorem publishedRecord_blocking (hp : r.state = .publishing)
    (h : publishedRecord o c.records r false now = .ok r') (hb : r'.blocking = true) :
    mayPublish c.records r = true ∧ r.resultHeadSha = "" := by
  unfold publishedRecord at h
  split at h
  · obtain ⟨a, ha, rfl⟩ := Except.of_map_ok h
    obtain ⟨-, -, rfl⟩ := withState_ok ha
    cases hb
  · next hm =>
    cases h
    have hd := not_durable_of_blocking hb
    exact ⟨by simpa using hm, by simpa [JobRecord.durable, JobRecord.unleased, hp] using hd⟩

/-! ## The lease pass -/

/-- At a finite clock a record that is active and has no durable result can leave its state. -/
theorem lapsedRecord_ok (hn : now.isFinite = true)
    (hb : r.blocking = true) :
    ∃ r', lapsedRecord o m r now = .ok r' ∧ r'.blocking = false ∧ r'.attempt = r.attempt := by
  have move : ∀ next, canTransition r.state next = true →
      withState r next now = .ok { r with state := next, updatedAtMs := now } := fun next hc => by
    rw [withState, requireFiniteMs, if_pos hn, if_pos hc]
    rfl
  have ha : isActiveState r.state = true := by
    simp only [JobRecord.blocking, Bool.and_eq_true] at hb
    exact hb.1
  have can : ∀ next, next = .queued ∨ next = .failed ∨ next = .superseded →
      canTransition r.state next = true := by
    rintro next (rfl | rfl | rfl) <;> revert ha <;> cases r.state <;> decide
  unfold lapsedRecord
  split
  · split
    · rw [retired, move _ (can _ (.inr (.inr rfl)))]
      exact ⟨_, rfl, rfl, rfl⟩
    · rw [move _ (can _ (.inl rfl))]
      exact ⟨_, rfl, rfl, rfl⟩
  · rw [move _ (can _ (.inr (.inl rfl)))]
    exact ⟨_, rfl, rfl, rfl⟩

theorem abortAndForget_returns (jobId : String) :
    Returns c (abortAndForget jobId) (fun _ c' => c'.records = c.records) := by
  refine .get ?_
  cases c.controllers.get? jobId with
  | none => exact .pure rfl
  | some token => exact .step rfl

/-- The record of `j` is out of the blocking set, after `attempt` attempts. -/
def Freed (j : String) (attempt : Nat) (records : Map String JobRecord) : Prop :=
  ∃ r, records.get? j = some r ∧ r.attempt = attempt ∧ r.blocking = false

/-- The lease pass frees every blocking record whose lease has run out. -/
theorem expireLeases_returns (hn : now.isFinite = true)
    (hj : c.records.get? j = some r) (hl : leaseLapsed r now = true) :
    Returns c (expireLeases o now) (fun _ c' => Freed j r.attempt c'.records) := by
  -- the entry is still to come, or it has been dealt with and does not come again
  let I (rest : List (String × JobRecord)) (s : Controller) : Prop := Pending rest s.records ∧
    ((j, r) ∈ rest ∨ Freed j r.attempt s.records ∧ ∀ e ∈ rest, e.1 ≠ j)
  have hstart : I c.records.entries c := ⟨Pending.entries _, .inl (Map.mem_entries_iff.mpr hj)⟩
  have hstep : ∀ e rest s, I (e :: rest) s → Returns s (expireLease o now e) (fun _ => I rest) := by
    rintro ⟨i, x⟩ rest s ⟨hp, hm⟩
    refine .ite (fun hx => ?_) fun hx => .pure ⟨hp.tail, ?_⟩
    · obtain ⟨x', hx', hb', hatt⟩ := lapsedRecord_ok (o := o) (m := s.records) hn
        (blocking_of_leaseLapsed hx)
      refine .bind (abortAndForget_returns i) fun _ s' hs' => .get (.lift (by rw [hs']; exact hx') ?_)
      refine .step ?_
      change Pending rest (s'.records.set i x') ∧ _
      rw [hs']
      refine ⟨hp.set x', ?_⟩
      rcases hm with hm | ⟨⟨y, hy, hf⟩, hne⟩
      · rcases mem_cons.mp hm with he | hm
        · cases he
          refine .inr ⟨⟨x', ?_, hatt, hb'⟩, fun e he hej => ?_⟩
          · exact Map.get?_set_self _ _ _
          · exact (nodup_cons.mp hp.nodup).1 (mem_map.mpr ⟨e, he, hej⟩)
        · exact .inl hm
      · have hji : j ≠ i := (hne (i, x) mem_cons_self).symm
        exact .inr ⟨⟨y, (Map.get?_set_ne hji).trans hy, hf⟩,
          fun e he => hne e (mem_cons_of_mem _ he)⟩
    · rcases hm with hm | ⟨hf, hne⟩
      · rcases mem_cons.mp hm with he | hm
        · cases he
          exact absurd hl hx
        · exact .inl hm
      · exact .inr ⟨hf, fun e he => hne e (mem_cons_of_mem _ he)⟩
  obtain ⟨⟨⟩, s, hs, -, hm | hm⟩ := Returns.forM hstart hstep
  · cases hm
  · exact ⟨⟨⟩, s, hs, hm.1⟩

/-- A record of `j` that blocks has been dispatched again since its first `attempt` attempts. -/
def Moved (j : String) (attempt : Nat) (records : Map String JobRecord) : Prop :=
  ∃ r, records.get? j = some r ∧ attempt ≤ r.attempt ∧ (r.blocking = true → attempt < r.attempt)

theorem Moved.atomic (h : Moved j n c.records)
    (hs : Atomic Guards.none.inPass o now c c') : Moved j n c'.records := by
  obtain ⟨r, hr, hle, hlt⟩ := h
  cases hs with
  | @change i x x' hi hc =>
    by_cases hij : j = i
    · subst hij
      obtain rfl : x = r := Option.some.inj (hi.symm.trans hr)
      rw [← hc.sameJob.attempt] at hle hlt
      exact ⟨x', Map.get?_set_self _ _ _, hle, fun hb => hlt (hc.blocking hb)⟩
    · exact ⟨r, by rw [Map.get?_set_ne hij]; exact hr, hle, hlt⟩
  | insert hv hi hn hg => exact hg.elim
  | adopt hn hk hrec hg hs => exact hs.elim
  | @dispatch x running hi he ha hsib hc hf hrun hg =>
    obtain ⟨-, -, rfl⟩ := runningRecord_ok hrun
    by_cases hij : j = x.job.jobId
    · subst hij
      obtain rfl : x = r := Option.some.inj (hi.symm.trans hr)
      exact ⟨_, Map.get?_set_self _ _ _, Nat.le_succ_of_le hle, fun _ => Nat.lt_succ_of_le hle⟩
    · exact ⟨r, (Map.get?_set_ne hij).trans hr, hle, hlt⟩
  | publish | save => exact ⟨r, hr, hle, hlt⟩
  | book hb => exact ⟨r, by rw [hb.quiet.records]; exact hr, hle, hlt⟩

/-- A scheduling pass after its lease pass. -/
theorem tick_after_expireLeases {c₁ : Controller} (h : expireLeases o now c = .ok ⟨⟩ c₁)
    (hk : Keyed c₁.records) :
    ReflTransGen (Atomic Guards.none.inPass o now) c₁ ((tick o store now).final c) := by
  have hg : DispatchPass Guards.none.inPass o now fun _ => True :=
    ⟨fun _ _ _ _ _ => trivial, fun _ _ _ _ => trivial⟩
  rw [tick, Action.final_bind h]
  refine Moves.path (Q := fun _ _ => True) ?_
  refine .bind (expireDeadlines_moves.inv (fun _ _ h hs => hs.keyed h) hk) fun _ c₂ h₂ => ?_
  refine .bind (retryPublishes_moves.inv (fun _ _ h hs => hs.keyed h) h₂.2) fun _ c₃ h₃ => .get ?_
  exact .ite (fun _ => save_moves') fun _ =>
    .bind (dispatchEligible_moves hg trivial h₃.2) fun _ _ _ => save_moves'

/-- **Lapsed leases free their slots**: after a tick at or after the lease time the record does not
block, or it is a new attempt. -/
theorem tick_frees (hk : Keyed c.records) (hn : now.isFinite = true)
    (hj : c.records.get? j = some r) (hb : r.blocking = true) (h0 : 0 < r.leaseExpiresAtMs)
    (hx : r.leaseExpiresAtMs ≤ now) : Moved j r.attempt ((tick o store now).final c).records := by
  have hl : leaseLapsed r now = true := by
    simp [leaseLapsed, hb, Number.not_le_of_lt h0, Number.not_lt_of_le hx]
  obtain ⟨⟨⟩, c₁, h₁, x, hxj, hatt, hxb⟩ := expireLeases_returns (o := o) hn hj hl
  have hk₁ : Keyed c₁.records := by
    have hJ : LeasePass Guards.none o now fun _ => True :=
      ⟨fun _ _ _ _ _ _ _ _ => trivial, fun _ _ _ _ _ _ _ _ => trivial⟩
    have hm := (expireLeases_moves hJ (c := c) trivial).path
    rw [Action.final, h₁] at hm
    exact invariant_of_path (I := fun c => Keyed c.records) hm (fun _ _ h hs => hs.keyed h) hk
  refine invariant_of_path (I := fun c => Moved j r.attempt c.records)
    (tick_after_expireLeases h₁ hk₁) (fun _ _ h hs => h.atomic hs) ?_
  exact ⟨x, hxj, hatt.ge, fun hb => by rw [hxb] at hb; cases hb⟩

/-! ## Runs -/

/-- The label writes positive lease times only, and it is not the failed publish of an empty
result. -/
def KeepsLease (o : SchedulerOptions) (c : Controller) (l : Label) : Prop :=
  match l.event with
  | .tick | .shutdown _ | .drainStep _ =>
    ∀ r ∈ c.records.values, dispatchable l.now r = true → 0 < l.now + o.leaseTtlMs
  | .heartbeat j owner =>
    ∀ r ∈ c.records.get? j, leaseIsValid r owner l.now = true → 0 < l.now + o.leaseTtlMs
  | .adoptRecovered j owner => owner ≠ "" → ∀ r ∈ recoverable c j, 0 < l.now + o.leaseTtlMs
  | .publishSettled call published => published = false → call ∈ c.publishes →
    ∀ r ∈ c.records.get? call.jobId, r.state = .publishing →
      (call.requireLeaseMatch = true → r.leaseOwner = call.token) →
      mayPublish c.records r = true → r.resultHeadSha ≠ ""
  | .enqueue _ | .resolveRecovered _ _ | .executorSettled _ _ _ | .settleDone _ _ | .recover => True

instance (o : SchedulerOptions) (c : Controller) (l : Label) : Decidable (KeepsLease o c l) := by
  delta KeepsLease
  rcases l with ⟨_ | _, now, store, crash⟩ <;> first | exact instDecidableForall | infer_instance

/-- The guards of a label: those of a scheduling pass where there is one. -/
def guardsLeasing (o : SchedulerOptions) (l : Label) : Guards :=
  match l.event with
  | .tick | .shutdown _ | .drainStep _ => (Guards.leasing o (l.event.clock l.now)).inPass
  | _ => Guards.leasing o (l.event.clock l.now)

theorem leasing_guardsLeasing (l : Label) :
    Leasing (guardsLeasing o l) o (l.event.clock l.now) := by
  unfold guardsLeasing
  split
  · exact leasing.inPass
  · exact leasing.inPass
  · exact leasing.inPass
  · exact leasing

theorem eventGuard_leasing (hl : KeepsLease o c l)
    (hp : ∀ call, l.event ≠ .publishSettled call false) :
    EventGuard (guardsLeasing o l) o l.now c l.event := by
  have pass : ∀ c' : Controller, c'.records = c.records →
      (∀ r ∈ c.records.values, dispatchable l.now r = true → 0 < l.now + o.leaseTtlMs) →
      TickGuard (Guards.leasing o l.now).inPass o l.now c' := fun c' hrec hp =>
    tickGuard_pass (Q := fun _ _ => 0 < l.now + o.leaseTtlMs) (fun _ => trivial)
      (fun _ _ h => h) (fun _ _ _ h _ => h)
      fun j r hr hd => hp r (Map.mem_values_iff.mpr ⟨j, by rw [← hrec]; exact hr⟩) hd
  unfold KeepsLease at hl
  unfold guardsLeasing
  cases he : l.event with
  | settleDone => exact trivial
  | recover => exact ⟨fun _ _ _ => trivial, trivial⟩
  | enqueue | executorSettled => exact fun _ _ _ _ => trivial
  | resolveRecovered => exact fun _ _ => trivial
  | tick | shutdown | drainStep =>
    rw [he] at hl
    exact pass _ rfl hl
  | heartbeat | adoptRecovered =>
    rw [he] at hl
    exact hl
  | publishSettled call published =>
    rintro - rfl
    exact hp call he

/-- One step of a process that lives on. -/
theorem lapsing_step (h : Lapsing c.records) (hk : Keyed c.records)
    (hl : KeepsLease o c l) (hlive : l.crash = none) : Lapsing (step o c l).records := by
  by_cases hp : ∃ call, l.event = .publishSettled call false
  · obtain ⟨call, he⟩ := hp
    have hstep : step o c l = (publishSettled o l.store call false).final c := by
      simp only [step, hlive, he, exec]
    simp only [KeepsLease, he] at hl
    rw [hstep]
    rcases publishSettled_records o l.store c call false with hr | ⟨r, r', hs, hr⟩ <;> rw [hr]
    · exact h
    · refine h.set fun hb => ?_
      obtain ⟨hm, hhead⟩ := publishedRecord_blocking hs.publishing hs.result hb
      exact absurd hhead (hl trivial hs.pending r hs.current hs.publishing hs.lease hm)
  · refine step_invariant (I := fun c => Lapsing c.records)
      (fun _ _ _ hi hs => hi.atomic (leasing_guardsLeasing l) hs) (fun m hd _ => ?_) hk
      (eventGuard_leasing hl fun call he => hp ⟨call, he⟩) h
    rw [diesAt, hlive] at hd
    cases hd

/-- A fresh process that recovers the snapshot `s` at `t`. -/
def recovered (o : SchedulerOptions) (store : StoreOutcome) (s : QueueSnapshot) (t : Number) :
    Controller :=
  run o (boot [.save s]) [⟨.recover, t, store, none⟩]

end PrReviewer.Queue
