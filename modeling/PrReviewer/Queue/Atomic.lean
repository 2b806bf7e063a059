import PrReviewer.Queue.Run

/-!
# What the controller can do at once

`Atomic` is everything a stretch of the controller is made of: one `records.set` (`Change`), a new
record, a dispatch, a publish call, a commit, the adoption of a recovered snapshot, or one change of
the bookkeeping around the records (`Book`). Each carries the tests the code has passed when it gets
there. Every step has at most one effect (`Atomic.log`), so a process that dies after some effect of a
stretch died in a state between two atomic steps.

An invariant of the controller is proved against these steps once; `exec_moves`
(`PrReviewer/Queue/Moves.lean`) says that every stretch is made of them.

`Guards` names the places where a result may have to assume something of a run: what a record
satisfies when a lease expiry or a recovery puts it back into the queue (`requeue`), when an execution
settles it (`settle`, with the other pending promises and the outcome), when its lease is renewed or
taken over (`renew`), when it is new (`insert`), when it is dispatched (`dispatch`), when its publish
is put off (`again`), and the history when a recovery adopts its last snapshot (`recover`). `Guards.none` assumes nothing.
-/

open Js Relation

namespace PrReviewer.Queue

structure Guards where
  requeue : JobRecord → Prop
  settle : List (String × String) → OutcomeStatus → JobRecord → Prop
  renew : List Effect → JobRecord → String → Prop
  insert : Prop
  dispatch : Controller → JobRecord → Prop
  again : Prop
  recover : List Effect → Prop

def Guards.none : Guards where
  requeue _ := True
  settle _ _ _ := True
  renew _ _ _ := True
  insert := True
  dispatch _ _ := True
  again := True
  recover _ := True

/-- What one `records.set` makes of the record `r` of job `j`. -/
inductive Change (G : Guards) (o : SchedulerOptions) (now : Number) (c : Controller) (j : String)
    (r : JobRecord) : JobRecord → Prop
  /-- An enqueue stamps an active generation. -/
  | stamp (newer : String) (ha : isActiveState r.state = true) :
      Change G o now c j r { r with cancelRequested := true, supersededByJobId := newer }
  /-- The generation ends. One with a durable result only ends as `superseded`, but for a settlement
  of its own. -/
  | drop (s : JobLifecycleState) (reason newer owner : String) (expires : Number)
      (hs : isDropState s = true) (ht : r.terminal = false) (hn : now.isFinite = true)
      (hl : r.state = .queued ∧ owner = r.leaseOwner ∧ expires = r.leaseExpiresAtMs ∨
        owner = "" ∧ expires = 0)
      (hd : s = .superseded ∨ r.durable = false ∨ ∃ status, G.settle c.executions status r) :
      Change G o now c j r
        { r with
          state := s, failureReason := reason, supersededByJobId := newer, leaseOwner := owner,
          leaseExpiresAtMs := expires, updatedAtMs := now }
  /-- A lapsed lease puts the record back into the queue. -/
  | requeue (hl : leaseLapsed r now = true) (ha : r.attempt < o.maxAttempts)
      (hs : findSupersedingSibling c.records r = none) (hn : now.isFinite = true)
      (hg : G.requeue r) :
      Change G o now c j r
        { r.unleased with
          state := .queued, readyAtMs := now, nextRetryAtMs := 0, cancelRequested := false,
          updatedAtMs := now }
  /-- A failed attempt goes back into the queue with a backoff. -/
  | retry (hx : isActiveState r.state = true) (ha : r.attempt < o.maxAttempts)
      (hc : r.cancelRequested = false) (hn : now.isFinite = true)
      (hg : G.settle c.executions .failed r) :
      Change G o now c j r
        { r.unleased with
          state := .queued, nextRetryAtMs := now + backoffMs o r.attempt, readyAtMs := now,
          updatedAtMs := now }
  /-- A completed execution hands over its result. -/
  | result (head : String) (hr : r.state = .running) (hn : now.isFinite = true)
      (hg : G.settle c.executions .completed r) :
      Change G o now c j r
        { r with state := .publishing, resultHeadSha := head, updatedAtMs := now }
  /-- The result has been published. -/
  | complete (next : Number) (hp : r.state = .publishing) (hm : mayPublish c.records r = true)
      (hn : now.isFinite = true) (hx : next = r.nextRetryAtMs ∨ next = 0) :
      Change G o now c j r
        { r.unleased with state := .completed, nextRetryAtMs := next, updatedAtMs := now }
  /-- A publish did not succeed and is tried again later. -/
  | again (hp : r.state = .publishing) (hg : G.again) :
      Change G o now c j r
        { r.unleased with nextRetryAtMs := now + publishRetryDelayMs o, updatedAtMs := now }
  /-- A lease is renewed by its owner, or taken over for a record without an executor handle. -/
  | renew (owner : String) (ho : owner ≠ "") (hn : now.isFinite = true)
      (hx : leaseIsValid r owner now = true ∨
        r.working = true ∧ c.controllers.get? j = none)
      (hg : G.renew c.log r owner) :
      Change G o now c j r
        { r with leaseOwner := owner, leaseExpiresAtMs := now + o.leaseTtlMs, updatedAtMs := now }

/-- A change of what is around the records. -/
inductive Book (c : Controller) : Controller → Prop
  | forget {j token : String} (h : c.controllers.get? j = some token) :
      Book c { c with controllers := c.controllers.delete j, log := .abort j token :: c.log }
  | abort (j token : String) : Book c { c with log := .abort j token :: c.log }
  | release {j token : String} (h : c.controllers.get? j = some token) :
      Book c { c with controllers := c.controllers.delete j }
  | clear : Book c { c with controllers := Map.empty }
  | close : Book c { c with closed := true }
  | bump : Book c { c with leaseTokenCounter := c.leaseTokenCounter + 1 }
  | settles {j token : String} (h : (j, token) ∈ c.executions) :
      Book c { c with executions := c.executions.erase (j, token) }
  | suspend (j token : String) : Book c { c with settling := (j, token) :: c.settling }
  | resume (j token : String) : Book c { c with settling := c.settling.erase (j, token) }
  | fly {j : String} (h : j ∉ c.publishInFlight) :
      Book c { c with publishInFlight := j :: c.publishInFlight }
  | land {call : PublishCall} (h : call ∈ c.publishes) :
      Book c { c with
        publishes := c.publishes.erase call
        publishInFlight := c.publishInFlight.filter (fun j => j ≠ call.jobId) }
  | drains (ds : List Drain) : Book c { c with drains := ds }

/-- The controller after a dispatch of `running` under `token`. -/
def Controller.dispatched (c : Controller) (running : JobRecord) (token : String) : Controller :=
  { c with
    leaseTokenCounter := c.leaseTokenCounter + 1
    records := c.records.set running.job.jobId running
    controllers := c.controllers.set running.job.jobId token
    executions := (running.job.jobId, token) :: c.executions
    log := .start running :: c.log }

/-- One atomic step. -/
inductive Atomic (G : Guards) (o : SchedulerOptions) (now : Number) (c : Controller) :
    Controller → Prop
  | change {j : String} {r r' : JobRecord} (hj : c.records.get? j = some r)
      (h : Change G o now c j r r') : Atomic G o now c { c with records := c.records.set j r' }
  | insert {job : ReviewJob} {r : JobRecord} (hv : validJob job = true)
      (hj : c.records.get? job.jobId = none) (hr : newJobRecord job now o.settleWindowMs = .ok r)
      (hg : G.insert) :
      Atomic G o now c { c with records := c.records.set job.jobId r }
  | dispatch {r running : JobRecord} (hj : c.records.get? r.job.jobId = some r)
      (he : eligible now r = true) (ha : hasActiveFor c.records r.prKey = false)
      (hs : findSupersedingSibling c.records r = none)
      (hc : countActive c.records < o.maxConcurrent) (hf : scopeFull o c.records r = false)
      (hr : runningRecord o r (leaseToken r.job.jobId (c.leaseTokenCounter + 1)) now = .ok running)
      (hg : G.dispatch c r) :
      Atomic G o now c
        (c.dispatched running (leaseToken r.job.jobId (c.leaseTokenCounter + 1)))
  | publish {call : PublishCall} {r : JobRecord} (hj : c.records.get? call.jobId = some r)
      (hp : r.state = .publishing) (hm : mayPublish c.records r = true) (hn : call.now = now) :
      Atomic G o now c
        { c with publishes := call :: c.publishes, log := .publish r :: c.log }
  | save {s : QueueSnapshot} (hs : parseQueueSnapshot (snapshotValue c.records.values) = .ok s) :
      Atomic G o now c { c with log := .save s :: c.log }
  | adopt {records : Map String JobRecord} (hn : now.isFinite = true)
      (hk : SnapshotOk (lastSaved c.log).records)
      (hr : recordsOf ⟨(lastSaved c.log).records.map (reconcileRecord now o.maxAttempts)⟩ =
        some records)
      (hg : ∀ r ∈ (lastSaved c.log).records,
        recoveryVerdict now o.maxAttempts r = .requeue → G.requeue r)
      (hs : G.recover c.log) :
      Atomic G o now c { c with records, controllers := Map.empty }
  | book {c' : Controller} (h : Book c c') : Atomic G o now c c'

/-! ## Frames -/

/-- A change keeps the job, its key, its enqueue time and its attempts. -/
structure SameJob (r r' : JobRecord) : Prop where
  job : r'.job = r.job
  prKey : r'.prKey = r.prKey
  enqueued : r'.enqueuedAtMs = r.enqueuedAtMs
  attempt : r'.attempt = r.attempt

variable {G : Guards} {o : SchedulerOptions} {now : Number} {c c' : Controller} {r : JobRecord}
  {m : Map String JobRecord} {s : QueueSnapshot}

theorem Change.sameJob
    {j : String} {r' : JobRecord} (h : Change G o now c j r r') : SameJob r r' := by
  cases h <;> exact ⟨rfl, rfl, rfl, rfl⟩

/-- What a change of the bookkeeping leaves alone. -/
structure Quiet (c c' : Controller) : Prop where
  records : c'.records = c.records
  counter : c.leaseTokenCounter ≤ c'.leaseTokenCounter
  executions : c'.executions.Sublist c.executions
  log : c'.log = c.log ∨ ∃ j token, c'.log = .abort j token :: c.log
  controllers : ∀ j token, c'.controllers.get? j = some token → c.controllers.get? j = some token
  publishes : ∀ call ∈ c'.publishes, call ∈ c.publishes

theorem get?_delete_some {m : Map String String} {k x v : String}
    (h : (m.delete k).get? x = some v) : m.get? x = some v := by
  rw [Map.get?_delete] at h
  split at h
  · cases h
  · exact h

theorem Book.quiet (h : Book c c') : Quiet c c' := by
  cases h with
  | forget h =>
    exact ⟨rfl, Nat.le_refl _, .refl _, .inr ⟨_, _, rfl⟩, fun _ _ => get?_delete_some,
      fun _ h => h⟩
  | abort j token =>
    exact ⟨rfl, Nat.le_refl _, .refl _, .inr ⟨_, _, rfl⟩, fun _ _ h => h, fun _ h => h⟩
  | release h =>
    exact ⟨rfl, Nat.le_refl _, .refl _, .inl rfl, fun _ _ => get?_delete_some, fun _ h => h⟩
  | clear => exact ⟨rfl, Nat.le_refl _, .refl _, .inl rfl, fun _ _ h => (by cases h), fun _ h => h⟩
  | bump => exact ⟨rfl, Nat.le_succ _, .refl _, .inl rfl, fun _ _ h => h, fun _ h => h⟩
  | settles h =>
    exact ⟨rfl, Nat.le_refl _, List.erase_sublist, .inl rfl, fun _ _ h => h, fun _ h => h⟩
  | land h =>
    exact ⟨rfl, Nat.le_refl _, .refl _, .inl rfl, fun _ _ h => h, fun _ h => List.mem_of_mem_erase h⟩
  | close | suspend | resume | fly | drains =>
    exact ⟨rfl, Nat.le_refl _, .refl _, .inl rfl, fun _ _ h => h, fun _ h => h⟩

/-- **One effect at a time.** -/
theorem Atomic.log
    (h : Atomic G o now c c') : c'.log = c.log ∨ ∃ e, c'.log = e :: c.log := by
  cases h with
  | change | insert | adopt => exact .inl rfl
  | dispatch | publish | save => exact .inr ⟨_, rfl⟩
  | book h => exact h.quiet.log.imp_right fun ⟨j, token, h⟩ => ⟨_, h⟩

/-- Every history on the way of a stretch was the history of a state on its way. -/
theorem exists_cut
    (h : ReflTransGen (Atomic G o now) c c') (k : Nat) :
    ∃ m, ReflTransGen (Atomic G o now) c m ∧ m.log = cutLog k c.log c'.log := by
  induction h with
  | refl => exact ⟨c, .refl, by simp [cutLog]⟩
  | @tail b d hcb hbd ih =>
    rcases hbd.log with he | ⟨e, he⟩
    · rw [he]; exact ih
    · by_cases hk : d.log.length - c.log.length - k = 0
      · exact ⟨d, hcb.tail hbd, by rw [cutLog, hk, List.drop_zero]⟩
      · obtain ⟨m, hm, hl⟩ := ih
        refine ⟨m, hm, hl.trans ?_⟩
        rw [he, List.length_cons] at hk
        rw [cutLog, cutLog, he, List.length_cons,
          show b.log.length + 1 - c.log.length - k = b.log.length - c.log.length - k + 1 by omega,
          List.drop_succ_cons]

/-! ## Records under their own ids -/

/-- Each record stands under the id of its job. -/
def Keyed (records : Map String JobRecord) : Prop :=
  ∀ j r, records.get? j = some r → r.job.jobId = j

theorem Keyed.set (h : Keyed m) {j : String} {r : JobRecord}
    (hr : r.job.jobId = j) : Keyed (m.set j r) := by
  intro k x hx
  rw [Map.get?_set] at hx
  split at hx
  · next hk => cases hx; rw [hk, hr]
  · exact h k x hx

theorem get?_recordsOf (h : recordsOf s = some m)
    {j : String} {r : JobRecord} : m.get? j = some r ↔ r ∈ s.records ∧ r.job.jobId = j := by
  rw [← Map.mem_entries_iff, Map.ofEntries?_entries h, List.mem_map]
  constructor
  · rintro ⟨x, hx, he⟩
    cases he
    exact ⟨hx, rfl⟩
  · rintro ⟨hr, rfl⟩
    exact ⟨r, hr, rfl⟩

theorem values_recordsOf (h : recordsOf s = some m) :
    m.values = s.records := by
  simp [Map.values, Map.ofEntries?_entries h, Function.comp_def]

theorem recordsOf_of_nodup (h : (s.records.map (·.job.jobId)).Nodup) :
    ∃ m, recordsOf s = some m := by
  unfold recordsOf Map.ofEntries?
  rw [dif_pos (by simpa [List.map_map, Function.comp_def] using h)]
  exact ⟨_, rfl⟩

theorem Keyed.recordsOf {s : QueueSnapshot} {m : Map String JobRecord} (h : recordsOf s = some m) :
    Keyed m :=
  fun _ _ hr => ((get?_recordsOf h).mp hr).2

theorem runningRecord_ok {running : JobRecord} {token : String}
    (h : runningRecord o r token now = .ok running) :
    now.isFinite = true ∧ r.state = .queued ∧
      running = { r with
        state := .running, attempt := r.attempt + 1, leaseOwner := token,
        leaseExpiresAtMs := now + o.leaseTtlMs, updatedAtMs := now } := by
  unfold runningRecord at h
  cases h1 : withState r .starting now with
  | error e => rw [h1] at h; cases h
  | ok r1 =>
    rw [h1] at h
    dsimp only [bind, Except.bind] at h
    cases h2 : withState r1 .running now with
    | error e => rw [h2] at h; cases h
    | ok r2 =>
      rw [h2] at h
      cases h
      obtain ⟨hn, hc, rfl⟩ := withState_ok h1
      obtain ⟨-, -, rfl⟩ := withState_ok h2
      refine ⟨hn, ?_, rfl⟩
      cases hs : r.state <;> simp [hs, canTransition, transitions] at hc ⊢

theorem Atomic.keyed
    (h : Atomic G o now c c') (hk : Keyed c.records) : Keyed c'.records := by
  cases h with
  | change hj h => exact hk.set (by rw [h.sameJob.job, hk _ _ hj])
  | insert hv hj hr hg =>
    obtain ⟨-, -, -, rfl⟩ := newJobRecord_ok hr
    exact hk.set rfl
  | dispatch hj he ha hs hc hf hr hg => exact hk.set rfl
  | publish | save => exact hk
  | adopt hn hok hr hg hs => exact Keyed.recordsOf hr
  | book h => rw [h.quiet.records]; exact hk

end PrReviewer.Queue
