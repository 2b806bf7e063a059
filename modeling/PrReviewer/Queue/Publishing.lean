import PrReviewer.Queue.Slots
import PrReviewer.Queue.Supersession

/-!
# Publish discipline

`publisher.publish` is called from two places, the settlement of an execution and the retry of each
tick, and its promise may stay pending for any time.

A call that resolves to `true` does not always succeed (`published_again`). `runPublish` leaves the
record alone when the lease of a settlement's call has passed to a later attempt, whose result is then
published too; and a recovery may go back to a snapshot from before the completion.
-/

open Js Relation List

namespace PrReviewer.Queue

variable {G : Guards} {o : SchedulerOptions} {now : Number} {store : StoreOutcome}
  {c c' : Controller}

/-! ## Stretches that do not publish -/

section Apart

variable {P : List PublishCall → List String → Prop}

/-- A property of the pending publishes and of the jobs whose publish is in flight. -/
def OnPublishes (P : List PublishCall → List String → Prop) (c : Controller) : Prop :=
  P c.publishes c.publishInFlight

variable {j token owner : String}

theorem setRecord_keeps {r : JobRecord} : Keeps (OnPublishes P) (setRecord j r) :=
  .modify fun _ h => h

theorem emit_keeps {e : Effect} : Keeps (OnPublishes P) (emit e) := .modify fun _ h => h

theorem save_keeps : Keeps (OnPublishes P) (save store) := by
  refine .get fun _ => .lift fun _ => ?_
  cases store with
  | committed => exact emit_keeps
  | committedThenThrew => exact emit_keeps.bind fun _ => .throw
  | failed => exact .throw

theorem abortAndForget_keeps : Keeps (OnPublishes P) (abortAndForget j) :=
  .get fun c => by
    cases c.controllers.get? j with
    | none => exact .pure
    | some token => exact .modify fun _ h => h

theorem releaseController_keeps :
    Keeps (OnPublishes P) (releaseController j token) :=
  .modify fun c h => by split <;> exact h

theorem expireLeases_keeps : Keeps (OnPublishes P) (expireLeases o now) :=
  .get fun _ => .forM fun _ => .ite (abortAndForget_keeps.bind fun _ =>
    .get fun _ => .lift fun _ => setRecord_keeps) .pure

theorem expireDeadlines_keeps : Keeps (OnPublishes P) (expireDeadlines now) :=
  .get fun _ => .forM fun _ => .ite (abortAndForget_keeps.bind fun _ =>
    .lift fun _ => setRecord_keeps) .pure

theorem dispatchLoop_keeps {prKeys : List String} {cs : List JobRecord} :
    Keeps (OnPublishes P) (dispatchLoop o now prKeys cs) := by
  induction cs generalizing prKeys with
  | nil => exact .pure
  | cons r rest ih =>
    have hstart : Keeps (OnPublishes P) (start o r now) :=
      .bind (.modify fun _ h => h) fun _ => .get fun _ => .lift fun _ => .modify fun _ h => h
    exact .get fun _ => .ite ih (.ite .pure (.ite ih (hstart.bind fun _ => ih)))

theorem dispatchEligible_keeps : Keeps (OnPublishes P) (dispatchEligible o now) :=
  .get fun _ => dispatchLoop_keeps

theorem enqueue_keeps {job : Value} : Keeps (OnPublishes P) (enqueue o store now job) := by
  refine .ite .throw (.get fun c => .ite .throw ?_)
  cases validateReviewJob job with
  | none => exact .throw
  | some validated =>
    refine .ite .pure (.bind (.forM fun r => ?_) fun _ => .lift fun _ =>
      setRecord_keeps.bind fun _ => save_keeps.bind fun _ => .pure)
    refine .ite (.ite (.lift fun _ => setRecord_keeps) (.ite ?_ .pure)) .pure
    refine setRecord_keeps.bind fun _ => .get fun c => ?_
    cases c.controllers.get? r.job.jobId with
    | none => exact .pure
    | some token => exact emit_keeps

theorem heartbeat_keeps :
    Keeps (OnPublishes P) (heartbeat o store now j owner) :=
  .get fun c => by
    cases c.records.get? j with
    | none => exact .pure
    | some r =>
      exact .ite .pure (.lift fun _ => setRecord_keeps.bind fun _ => save_keeps.bind fun _ => .pure)

theorem adoptRecovered_keeps :
    Keeps (OnPublishes P) (adoptRecovered o store now j owner) :=
  .ite .pure (.get fun c => by
    cases recoverable c j with
    | none => exact .pure
    | some r =>
      exact .lift fun _ => setRecord_keeps.bind fun _ => save_keeps.bind fun _ => .pure)

theorem settleDone_keeps : Keeps (OnPublishes P) (settleDone store j token) :=
  .get fun _ => .ite (.bind (.modify fun _ h => h) fun _ =>
    releaseController_keeps.bind fun _ => save_keeps) .pure

theorem cancelRemaining_keeps : Keeps (OnPublishes P) (cancelRemaining store now) :=
  .get fun _ => .bind (.forM fun _ => emit_keeps) fun _ => .bind (.modify fun _ h => h) fun _ =>
    .bind (.forM fun _ => .ite (.lift fun _ => setRecord_keeps) .pure) fun _ => save_keeps

theorem recover_keeps : Keeps (OnPublishes P) (recover o store now) :=
  .get fun c => .lift fun reconciled => by
    cases recordsOf reconciled.snapshot with
    | none => exact .throw
    | some records =>
      exact .bind (.modify fun _ h => h) fun _ => save_keeps.bind fun _ => .pure

end Apart

/-! ## One call for each job -/

/-- At most one publish of each job is pending, and a job with one is marked as in flight. -/
structure Flight (publishes : List PublishCall) (inFlight : List String) : Prop where
  once : (publishes.map (·.jobId)).Nodup
  marked : ∀ call ∈ publishes, call.jobId ∈ inFlight

variable {publishes : List PublishCall} {inFlight : List String}

theorem Flight.fly (h : Flight publishes inFlight) (j : String) :
    Flight publishes (j :: inFlight) :=
  ⟨h.once, fun call hc => mem_cons_of_mem _ (h.marked call hc)⟩

/-- A call of a job that was not in flight when it was marked. -/
theorem Flight.fire (h : Flight publishes inFlight) {call : PublishCall}
    (hj : call.jobId ∉ inFlight) : Flight (call :: publishes) (call.jobId :: inFlight) := by
  refine ⟨nodup_cons.mpr ⟨fun hm => ?_, h.once⟩, fun d hd => ?_⟩
  · obtain ⟨d, hd, he⟩ := mem_map.mp hm
    rw [show call.jobId = d.jobId from he.symm] at hj
    exact hj (h.marked d hd)
  · rcases mem_cons.mp hd with rfl | hd
    · exact mem_cons_self
    · exact mem_cons_of_mem _ (h.marked d hd)

theorem Flight.land (h : Flight publishes inFlight) {call : PublishCall} (hc : call ∈ publishes) :
    Flight (publishes.erase call) (inFlight.filter (fun j => j ≠ call.jobId)) := by
  have hp := perm_cons_erase hc
  have hnd := (hp.map (·.jobId)).nodup_iff.mp h.once
  rw [map_cons, nodup_cons] at hnd
  refine ⟨hnd.2, fun d hd => mem_filter.mpr ⟨h.marked d (mem_of_mem_erase hd), ?_⟩⟩
  simp only [ne_eq, decide_not, Bool.not_eq_eq_eq_not, Bool.not_true, decide_eq_false_iff_not]
  intro he
  exact hnd.1 (mem_map.mpr ⟨d, hd, he⟩)

abbrev InFlight (c : Controller) : Prop := OnPublishes Flight c

theorem retryPublishes_keeps : Keeps InFlight (retryPublishes o now) := by
  refine .ite (.get fun _ => .forM fun ⟨j, r⟩ => .of_moves fun c hc => ?_) .pure
  refine ⟨fun _ _ => True, .get (.ite (fun hx => .ite (fun _ => ?_) fun _ => ?_) fun _ => .pure trivial)⟩
  · exact .lift fun _ _ => .step hc trivial
  · rw [Bool.and_eq_true, Bool.not_eq_true', contains_eq_mem, decide_eq_false_iff_not] at hx
    exact .assign (Flight.fly hc j) (.step (Flight.fire hc hx.2) trivial)

theorem tick_keeps : Keeps InFlight (tick o store now) :=
  expireLeases_keeps.bind fun _ => expireDeadlines_keeps.bind fun _ =>
    retryPublishes_keeps.bind fun _ => .get fun _ =>
      .ite save_keeps (dispatchEligible_keeps.bind fun _ => save_keeps)

variable {j token jobId : String} {r : JobRecord} {outcome : ExecutionOutcome} {call : PublishCall}
  {log₀ : List Effect}

theorem settleCompleted_keeps :
    Keeps InFlight (settleCompleted o store now j token r outcome) := by
  refine .of_moves fun c hc => ⟨fun _ _ => True, .lift fun r₁ _ => .assign hc (.get ?_)⟩
  refine .ite (fun _ => .lift fun _ _ => .step hc trivial) fun _ =>
    .ite (fun _ => .lift fun _ _ => .step hc trivial) fun _ =>
    .ite (fun _ => .pure trivial) fun hf => .assign (Flight.fly hc j) ?_
  rw [contains_eq_mem, decide_eq_true_eq] at hf
  -- the save is between the mark and the call, and touches neither
  let Marked := OnPublishes fun ps fs => ps = c.publishes ∧ fs = j :: c.publishInFlight
  have hsave : Keeps Marked (save store) := save_keeps
  refine .bind (hsave.moves ⟨rfl, rfl⟩ fun t ht => ?_) fun _ t ht => .step ?_ trivial
  · rw [InFlight, OnPublishes, ht.1, ht.2]
    exact Flight.fly hc j
  · change Flight (_ :: t.publishes) t.publishInFlight
    rw [ht.1, ht.2]
    exact Flight.fire hc hf

theorem settle_keeps :
    Keeps InFlight (settle o store now j token outcome) :=
  .get fun c => by
    cases c.records.get? j with
    | none => exact releaseController_keeps
    | some r =>
      refine .ite releaseController_keeps ?_
      cases outcome.status with
      | completed => exact settleCompleted_keeps.bind fun _ => .modify fun _ h => h
      | failed | cancelled =>
        exact .lift fun _ => setRecord_keeps.bind fun _ =>
          releaseController_keeps.bind fun _ => save_keeps

theorem publishSettled_keeps {published : Bool} :
    Keeps InFlight (publishSettled o store call published) := by
  refine .of_moves fun c hc => ⟨fun _ _ => True, .get (.ite (fun hm => ?_) fun _ => .pure trivial)⟩
  have hl : Flight (c.publishes.erase call) _ := Flight.land hc hm
  refine .assign hl ?_
  cases c.records.get? call.jobId with
  | none => exact .pure trivial
  | some r =>
    refine .ite (fun _ => .pure trivial) fun _ => .lift fun r' _ => .assign hl ?_
    have hsave : Keeps InFlight (save store) := save_keeps
    refine (hsave.moves ?_ fun _ h => h).mono fun _ _ _ => trivial
    exact hl

theorem drainPass_keeps {d : Drain} : Keeps InFlight (drainPass o store now d) :=
  .get fun _ => .ite (tick_keeps.bind fun _ => .modify fun _ h => h) cancelRemaining_keeps

/-- **One publish of a job at a time.** -/
theorem exec_keeps {e : Event} : Keeps InFlight (exec o store now e) := by
  cases e with
  | enqueue job => exact enqueue_keeps.bind fun _ => .pure
  | tick => exact tick_keeps
  | heartbeat j owner => exact heartbeat_keeps.bind fun _ => .pure
  | resolveRecovered j outcome =>
    refine .bind (.get fun c => ?_) fun _ => .pure
    cases recoverable c j with
    | none => exact .pure
    | some r => exact .ite .pure (settle_keeps.bind fun _ => .pure)
  | adoptRecovered j owner => exact adoptRecovered_keeps.bind fun _ => .pure
  | executorSettled j token outcome =>
    exact .get fun _ => .ite (.bind (.modify fun _ h => h) fun _ => settle_keeps) .pure
  | settleDone j token => exact settleDone_keeps
  | publishSettled call published => exact publishSettled_keeps
  | shutdown drainMs =>
    exact .bind (.modify fun _ h => h) fun _ => .get fun _ => drainPass_keeps
  | drainStep d =>
    exact .get fun _ => .ite (.bind (.modify fun _ h => h) fun _ =>
      .ite cancelRemaining_keeps drainPass_keeps) .pure
  | recover => exact recover_keeps.bind fun _ => .pure

/-! ## The gate of every call -/

/-- The record may be published: it is publishing, not stamped, and no newer generation of its
`prKey` is alive. -/
structure Gated (r : JobRecord) (c : Controller) : Prop where
  current : c.records.get? r.job.jobId = some r
  publishing : r.state = .publishing
  free : r.cancelRequested = false
  newest : ∀ x ∈ c.records.values, supersedes r x = false

theorem gated_of_mayPublish (hk : Keyed c.records)
    (hj : c.records.get? j = some r) (hp : r.state = .publishing)
    (hm : mayPublish c.records r = true) : Gated r c := by
  simp only [mayPublish, Bool.and_eq_true, Bool.not_eq_true', Option.isNone_iff_eq_none] at hm
  refine ⟨by rw [hk j r hj, hj], hp, hm.1, fun x hx => ?_⟩
  by_contra hs
  have := findSupersedingSibling_isSome.mpr ⟨x, hx, by simpa using hs⟩
  rw [hm.2] at this
  cases this

theorem mayPublish_of_gated (h : Gated r c) : mayPublish c.records r = true := by
  simp only [mayPublish, Bool.and_eq_true, Bool.not_eq_true', Option.isNone_iff_eq_none]
  refine ⟨h.free, Option.not_isSome_iff_eq_none.mp fun hs => ?_⟩
  obtain ⟨x, hx, hs⟩ := findSupersedingSibling_isSome.mp hs
  rw [h.newest x hx] at hs
  cases hs

/-- The one atomic step that calls the publisher. -/
theorem gated_publish (h : Atomic G o now c c') (hk : Keyed c.records)
    (hl : c'.log = .publish r :: c.log) : Gated r c := by
  have hne : ∀ e : Effect, c.log ≠ e :: c.log := fun e he => by
    have := congrArg List.length he
    rw [length_cons] at this
    omega
  cases h with
  | change | insert | adopt => exact absurd hl (hne _)
  | dispatch | save => cases hl
  | publish hj hp hm hn =>
    cases hl
    exact gated_of_mayPublish hk hj hp hm
  | book hb =>
    rcases hb.quiet.log with he | ⟨j, token, he⟩ <;> rw [he] at hl
    · exact absurd hl (hne _)
    · cases hl

/-- Every call of a stretch was made in a state on its way in which the record passed the gate. -/
theorem gated_of_path (h : ReflTransGen (Atomic G o now) c c') (hk : Keyed c.records)
    {later earlier : List Effect} {r : JobRecord}
    (hl : c'.log = later ++ .publish r :: (earlier ++ c.log)) :
    ∃ m, ReflTransGen (Atomic G o now) c m ∧ ReflTransGen (Atomic G o now) m c' ∧
      m.log = earlier ++ c.log ∧ Gated r m := by
  induction h generalizing later with
  | refl =>
    have := congrArg List.length hl
    simp at this
    omega
  | @tail b d hcb hbd ih =>
    have further : ∀ {later}, b.log = later ++ .publish r :: (earlier ++ c.log) →
        ∃ m, ReflTransGen (Atomic G o now) c m ∧ ReflTransGen (Atomic G o now) m d ∧
          m.log = earlier ++ c.log ∧ Gated r m := fun hb => by
      obtain ⟨m, hcm, hmb, hm⟩ := ih hb
      exact ⟨m, hcm, hmb.tail hbd, hm⟩
    rcases hbd.log with he | ⟨e, he⟩
    · exact further (he ▸ hl)
    · rw [he] at hl
      cases later with
      | nil =>
        rw [nil_append, List.cons.injEq] at hl
        have hkb : Keyed b.records :=
          invariant_of_path (I := fun c => Keyed c.records) hcb (fun _ _ h hs => hs.keyed h) hk
        refine ⟨b, hcb, .single hbd, hl.2, gated_publish hbd hkb ?_⟩
        rw [he, hl.1]
      | cons x xs =>
        rw [cons_append, List.cons.injEq] at hl
        exact further hl.2

/-! ## The last call -/

/-- The effect is no publish of the job. -/
def NoPublish (jobId : String) (e : Effect) : Prop := ∀ r, e = .publish r → r.job.jobId ≠ jobId

/-- The job has ended, and has not been published since. -/
structure Ended (jobId : String) (log₀ : List Effect) (c : Controller) : Prop where
  memory : Holds (fun r => r.terminal = true) jobId c.records
  since : Since (NoPublish jobId) log₀ c.log

/-- A recovery of a snapshot in which the job has ended. -/
def Guards.ended (jobId : String) : Guards :=
  { Guards.none with recover := fun log => Holds (fun r => r.terminal = true) jobId (saved log) }

theorem Change.terminal {r' : JobRecord} (hc : Change G o now c j r r')
    (ht : r.terminal = true) : r'.terminal = true := by
  have hact : isActiveState r.state = true → False := fun ha => by
    revert ht ha
    rw [JobRecord.terminal]
    cases r.state <;> decide
  cases hc with
  | stamp newer ha => exact (hact ha).elim
  | drop s reason newer owner expires hs hterm => rw [ht] at hterm; cases hterm
  | requeue hl => exact (hact (isActiveState_of_blocking (blocking_of_leaseLapsed hl))).elim
  | retry hx => exact (hact hx).elim
  | result head hr => exact (hact (by rw [hr]; rfl)).elim
  | complete next hp => exact (hact (by rw [hp]; rfl)).elim
  | again hp => exact (hact (by rw [hp]; rfl)).elim
  | renew => exact ht

theorem Ended.atomic (h : Ended j log₀ c) (hk : Keyed c.records)
    (hs : Atomic (Guards.ended j) o now c c') : Ended j log₀ c' := by
  obtain ⟨x, hx, hxt⟩ := h.memory
  cases hs with
  | @change i r r' hi hc =>
    refine ⟨h.memory.set fun he => ?_, h.since⟩
    subst he
    rw [hi] at hx
    cases hx
    exact hc.terminal hxt
  | insert hv hi hr hg =>
    refine ⟨h.memory.set fun he => ?_, h.since⟩
    rw [← he, hi] at hx
    cases hx
  | dispatch hi he ha hsib hc hf hr hg =>
    obtain ⟨-, hq, rfl⟩ := runningRecord_ok hr
    refine ⟨h.memory.set fun he => ?_, h.since.cons fun _ he => by cases he⟩
    rw [← he, hi] at hx
    cases hx
    rw [JobRecord.terminal, hq] at hxt
    cases hxt
  | @publish call r hi hp hm hn =>
    refine ⟨h.memory, h.since.cons fun r' hr' he => ?_⟩
    cases hr'
    rw [← he, hk _ r hi, hi] at hx
    cases hx
    rw [JobRecord.terminal, hp] at hxt
    cases hxt
  | save => exact ⟨h.memory, h.since.cons fun _ he => by cases he⟩
  | adopt hn hok hr hg hrec =>
    obtain ⟨y, hy, hyt⟩ := hrec
    refine ⟨⟨_, by rw [get?_adopt hok hr, hy]; rfl, ?_⟩, h.since⟩
    have hkeep : recoveryVerdict now o.maxAttempts y = .keep := by
      rw [recoveryVerdict, not_active_of_terminal hyt]
      rfl
    rw [reconcileRecord, hkeep]
    exact hyt
  | book hb => exact ⟨by rw [hb.quiet.records]; exact h.memory, h.since.quiet hb.quiet fun _ _ _ he => by cases he⟩

/-- The label does not go back to a snapshot in which the job has not ended. -/
def StaysEnded (jobId : String) (c : Controller) (l : Label) : Prop :=
  match l.event with
  | .recover => ((saved c.log).get? jobId).any (·.terminal) = true
  | _ => True

instance (jobId : String) (c : Controller) (l : Label) : Decidable (StaysEnded jobId c l) := by
  delta StaysEnded
  rcases l with ⟨_ | _, now, store, crash⟩ <;> infer_instance

theorem holds_of_any {p : JobRecord → Bool} {m : Map String JobRecord}
    (h : (m.get? j).any p = true) : Holds (fun r => p r = true) j m := by
  cases hj : m.get? j with
  | none => rw [hj] at h; cases h
  | some r => rw [hj] at h; exact ⟨r, hj, h⟩

theorem eventGuard_ended {l : Label} (h : StaysEnded jobId c l) :
    EventGuard (Guards.ended jobId) o l.now c l.event := by
  unfold StaysEnded at h
  cases he : l.event with
  | tick | shutdown | drainStep => exact tickGuard_free (fun _ => trivial) fun _ _ => trivial
  | settleDone => exact trivial
  | heartbeat | adoptRecovered => exact fun _ _ _ => trivial
  | resolveRecovered | publishSettled => exact fun _ _ => trivial
  | enqueue | executorSettled => exact fun _ _ _ _ => trivial
  | recover =>
    rw [he] at h
    exact ⟨fun _ _ _ => trivial, holds_of_any h⟩

/-- The publish of `r` that `call` stands for succeeds: the record still passes the gate, the call of
a settlement still has its lease, and the clock was read as a finite number when the call was made. -/
structure Succeeds (c : Controller) (call : PublishCall) (r : JobRecord) : Prop where
  pending : call ∈ c.publishes
  gated : Gated r c
  job : r.job.jobId = call.jobId
  lease : call.requireLeaseMatch = true → r.leaseOwner = call.token
  clock : call.now.isFinite = true

/-- A publish that succeeds ends its job. -/
theorem publishSettled_ended (h : Succeeds c call r)
    (hk : Keyed c.records) :
    Ended call.jobId c.log ((publishSettled o store call true).final c) := by
  have hj : c.records.get? call.jobId = some r := h.job ▸ h.gated.current
  have hstate : withState r .completed call.now =
      .ok { r with state := .completed, updatedAtMs := call.now } := by
    rw [withState, requireFiniteMs, if_pos h.clock, h.gated.publishing]
    rfl
  have hrec : publishedRecord o c.records r true call.now = .ok
      { r.unleased with state := .completed, updatedAtMs := call.now, nextRetryAtMs := 0 } := by
    rw [publishedRecord, mayPublish_of_gated h.gated, hstate]
    rfl
  have hskip : ¬((r.state ≠ .publishing || (call.requireLeaseMatch && r.leaseOwner ≠ call.token)) =
      true) := by
    simpa [h.gated.publishing] using h.lease
  let mid : Controller :=
    { c with
      publishes := c.publishes.erase call
      publishInFlight := c.publishInFlight.filter (fun j => j ≠ call.jobId)
      records := c.records.set call.jobId
        { r.unleased with state := .completed, updatedAtMs := call.now, nextRetryAtMs := 0 } }
  have hfinal : (publishSettled o store call true).final c = (save store).final mid := by
    refine (Action.final_bind (m := get) rfl).trans ?_
    rw [if_pos h.pending]
    refine (Action.final_bind rfl).trans ?_
    rw [hj]
    dsimp only
    rw [if_neg hskip, hrec]
    rfl
  rw [hfinal]
  have hmid : Keyed mid.records ∧ Ended call.jobId c.log mid :=
    ⟨hk.set h.job, ⟨_, Map.get?_set_self _ _ _, rfl⟩, .refl _ _⟩
  have hsave : Moves (Atomic (Guards.ended call.jobId) o call.now) mid (save store) _ := save_moves'
  exact (invariant_of_path (I := fun c' => Keyed c'.records ∧ Ended call.jobId c.log c') hsave.path
    (fun _ _ h hs => ⟨hs.keyed h.1, h.2.atomic h.1 hs⟩) hmid).2

theorem ended_run {ms : List Label} (hk : Keyed c.records)
    (h : Ended jobId log₀ c) (hlive : ∀ l ∈ ms, l.crash = none)
    (hms : Along o (StaysEnded jobId) c ms) : Ended jobId log₀ (run o c ms) :=
  run_invariant (G := fun _ => Guards.ended jobId) (I := Ended jobId log₀) hk h
    ((along_of_mem hlive c).and hms) (fun _ _ _ hk hi hs => hi.atomic hk hs)
    (fun _ _ _ hl hd => by rw [diesAt, hl.1] at hd; cases hd)
    fun _ _ _ _ hl => eventGuard_ended hl.2

/-! ## Runs -/

theorem inFlight_run (log : List Effect) (ls : List Label) : InFlight (run o (boot log) ls) := by
  have hboot : ∀ log, InFlight (boot log) := fun _ => ⟨.nil, fun _ h => absurd h not_mem_nil⟩
  refine run_induct (hboot log) (along_of_forall (P := fun _ _ => True) (fun _ _ => trivial) _ ls)
    fun c l hi _ => ?_
  unfold step
  cases l.crash with
  | none => exact exec_keeps c hi
  | some k => exact hboot _

theorem keyed_run_boot (log : List Effect) (ls : List Label) :
    Keyed (run o (boot log) ls).records :=
  run_induct (I := fun c => Keyed c.records) (keyed_boot log)
    (along_of_forall (P := fun _ _ => True) (fun _ _ => trivial) _ _) fun _ _ h _ => keyed_step h

/-- The promise of `call` resolves to `true` at `now`. -/
def resolved (call : PublishCall) (store : StoreOutcome) (now : Number) : Label :=
  ⟨.publishSettled call true, now, store, none⟩

/-- **Publish discipline.** In every state of every run over any store:

- at most one publish of each job is pending;
- each call of the next stretch is made in a state in which its record passes the gate;
- after a publish that succeeds the job is not published again by this process, unless it recovers a
  snapshot in which the job has not ended. -/
theorem publish_discipline (o : SchedulerOptions) (log : List Effect) (ls : List Label) :
    let c := run o (boot log) ls
    (∀ jobId, (c.publishes.filter (fun call => call.jobId = jobId)).length ≤ 1) ∧
    (∀ (e : Event) (store : StoreOutcome) (now : Number) (later earlier : List Effect)
        (r : JobRecord),
      ((exec o store now e).final c).log = later ++ .publish r :: (earlier ++ c.log) →
      ∃ m, ReflTransGen (Atomic Guards.none o (e.clock now)) c m ∧
        ReflTransGen (Atomic Guards.none o (e.clock now)) m ((exec o store now e).final c) ∧
        m.log = earlier ++ c.log ∧ Gated r m) ∧
    ∀ (call : PublishCall) (r : JobRecord) (store : StoreOutcome) (now : Number) (ms : List Label),
      Succeeds c call r → (∀ l ∈ ms, l.crash = none) →
      Along o (StaysEnded call.jobId) (step o c (resolved call store now)) ms →
      Since (NoPublish call.jobId) c.log (run o c (resolved call store now :: ms)).log := by
  intro c
  have hk : Keyed c.records := keyed_run_boot log ls
  refine ⟨fun jobId => ?_, fun e store now later earlier r hl => ?_,
    fun call r store now ms hs hlive hms => ?_⟩
  · have hnd := (inFlight_run (o := o) log ls).once
    have hsub : ((c.publishes.filter (fun call => call.jobId = jobId)).map (·.jobId)).Nodup :=
      hnd.sublist (filter_sublist.map _)
    have hrep : (c.publishes.filter (fun call => call.jobId = jobId)).map (·.jobId) =
        List.replicate (c.publishes.filter (fun call => call.jobId = jobId)).length jobId := by
      refine eq_replicate_iff.mpr ⟨by rw [length_map], fun j hj => ?_⟩
      obtain ⟨d, hd, rfl⟩ := mem_map.mp hj
      simpa using (mem_filter.mp hd).2
    rw [hrep] at hsub
    exact nodup_replicate.mp hsub
  · have hm : Moves (Atomic Guards.none o (e.clock now)) c (exec o store now e) _ :=
      exec_moves hk eventGuard_none
    exact gated_of_path hm.path hk hl
  · have h0 : Ended call.jobId c.log (step o c (resolved call store now)) :=
      publishSettled_ended hs hk
    exact (ended_run (keyed_step hk) h0 hlive hms).since

/-- The publishes of a job in a history. -/
def publishesOf (jobId : String) (log : List Effect) : Nat :=
  log.countP fun
    | .publish r => r.job.jobId = jobId
    | _ => false

/-- A publish of `a` that succeeds, and two ticks. -/
theorem publish_discipline_once :
    let c := run exampleOptions fresh [(enqueueOf "a").at 0, Event.tick.at 0,
      (Event.executorSettled "a" "lease-a-1" ⟨.completed, "abc", ""⟩).at 1]
    Since (NoPublish "a") c.log (run exampleOptions c
      [resolved ⟨"a", "lease-a-1", 1, true⟩ .committed 2, Event.tick.at 3, Event.tick.at 30]).log := by
  intro c
  have hex : (c.records.get? "a").any (fun r => r.job.jobId = "a" && r.state = .publishing &&
      mayPublish c.records r && r.leaseOwner = "lease-a-1") = true := by
    decide +kernel
  obtain ⟨r, hr, hp⟩ := holds_of_any hex
  simp only [Bool.and_eq_true, decide_eq_true_eq] at hp
  have hk : Keyed c.records := keyed_run_boot [] _
  have hs : Succeeds c ⟨"a", "lease-a-1", 1, true⟩ r :=
    ⟨by decide +kernel, gated_of_mayPublish hk hr hp.1.1.2 hp.1.2, hp.1.1.1, fun _ => hp.2, by decide⟩
  exact (publish_discipline exampleOptions [] [(enqueueOf "a").at 0, Event.tick.at 0,
    (Event.executorSettled "a" "lease-a-1" ⟨.completed, "abc", ""⟩).at 1]).2.2 _ r .committed 2
      [Event.tick.at 3, Event.tick.at 30] hs (by decide +kernel) (by decide +kernel)

/-- **A job published again**, after a call that resolved to `true` for a record that passed the gate:
the lease of the call was lost to a later attempt; the completion was not saved, and a recovery went
back; or the clock of the call was not a number. -/
theorem published_again :
    let started := [(enqueueOf "a").at 0, Event.tick.at 0]
    let done (n : String) (head : String) (t : Number) :=
      (Event.executorSettled "a" ("lease-a-" ++ n) ⟨.completed, head, ""⟩).at t
    let again (ls : List Label) (call : PublishCall) (ms : List Label) :=
      let c := run exampleOptions fresh ls
      call ∈ c.publishes ∧
        (c.records.get? "a").any (fun r => r.state = .publishing && mayPublish c.records r) = true ∧
        publishesOf "a" c.log < publishesOf "a" (run exampleOptions c ms).log
    let first : PublishCall := ⟨"a", "lease-a-1", 1, true⟩
    again (started ++ [done "1" "" 1, Event.tick.at 20, done "2" "abc" 21]) first
        [resolved first .committed 22, Event.tick.at 23] ∧
      again (started ++ [done "1" "abc" 1]) first
        [resolved first .failed 2, Event.recover.at 3, Event.tick.at 4] ∧
      again (started ++ [done "1" "abc" 1, (Event.publishSettled first false).at 2,
          Event.tick.at Number.nan]) ⟨"a", "", Number.nan, false⟩
        [resolved ⟨"a", "", Number.nan, false⟩ .committed 3, Event.tick.at 4] := by
  decide +kernel

end PrReviewer.Queue
