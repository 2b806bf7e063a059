import PrReviewer.Queue.Saved

/-!
# Lease tokens

The token of a dispatch is made from its job id and a counter that starts at 0 in each process. So
within a process no token comes twice, but a process that dispatches a job again can give it the token
of an earlier process, and the worker of that earlier dispatch then passes for the new one
(`token_reused`).

`fenced_run`: the tokens of a job are different, and a worker whose dispatch is `Abandoned` changes
nothing with a settlement or a heartbeat, in every run whose labels are `Ahead`:

- where a scheduling pass may dispatch a job, the counter has passed every number under which the job
  was dispatched before (`Passed`);
- no death of the process and no recovery goes back to a store in which the job of an active record
  misses a dispatch (`Recent`);
- a record is not adopted under the token of a dispatch that a later one has replaced.
-/

open Js

namespace PrReviewer.Queue

variable {G : Guards} {o : SchedulerOptions} {now : Number} {c c' : Controller}

/-! ## Dispatches and their tokens -/

/-- The token of the latest dispatch of the job. -/
def latest (jobId : String) (ds : List (String × String)) : Option String :=
  (ds.find? (fun d => d.1 = jobId)).map Prod.snd

theorem latest_cons_self (j token : String) (ds : List (String × String)) :
    latest j ((j, token) :: ds) = some token := by
  simp [latest]

variable {j token : String} {ds : List (String × String)} {r : JobRecord} {store : StoreOutcome}
  {outcome : ExecutionOutcome}

theorem latest_cons_ne {i : String} (h : i ≠ j) (token : String) (ds : List (String × String)) :
    latest j ((i, token) :: ds) = latest j ds := by
  simp [latest, h]

/-- The counter has passed every number under which the job was dispatched. -/
def Passed (c : Controller) (jobId : String) : Prop :=
  ∀ d ∈ dispatches c.log, d.1 = jobId →
    ∃ n, n < c.leaseTokenCounter + 1 ∧ d.2 = leaseToken jobId n

instance (c : Controller) (jobId : String) : Decidable (Passed c jobId) := by
  unfold Passed; infer_instance

theorem Passed.fresh (h : Passed c j) :
    (j, leaseToken j (c.leaseTokenCounter + 1)) ∉ dispatches c.log := by
  intro hm
  obtain ⟨n, hn, he⟩ := h _ hm rfl
  have := leaseToken_inj he
  omega

/-- The store misses no dispatch of a job whose record is active in it. -/
def Recent (log : List Effect) : Prop :=
  ∀ r ∈ (lastSaved log).records, isActiveState r.state = true →
    starts r.job.jobId (unsaved log) = 0

instance (log : List Effect) : Decidable (Recent log) := by unfold Recent; infer_instance

/-! ## The lease of a record -/

/-- The lease of a record whose job has the dispatches `ds`: none when the record is not active, and
of the dispatches only the latest holds it. -/
structure Leased (ds : List (String × String)) (r : JobRecord) : Prop where
  idle : isActiveState r.state = false → r.leaseOwner = ""
  current : (r.job.jobId, r.leaseOwner) ∈ ds → latest r.job.jobId ds = some r.leaseOwner

/-- No dispatch has the empty token. -/
def Named (ds : List (String × String)) : Prop := ∀ d ∈ ds, d.2 ≠ ""

theorem Leased.of_unleased (hn : Named ds)
    (h : r.leaseOwner = "") : Leased ds r :=
  ⟨fun _ => h, fun hm => absurd h (hn _ hm)⟩

/-- A lease is renewed or taken over by the latest dispatch, or by an owner that is none, and where a
job is dispatched the counter has passed its numbers. A recovery goes back to a recent store. -/
def Guards.ahead : Guards :=
  { Guards.none with
    renew := fun log r owner => (r.job.jobId, owner) ∈ dispatches log →
      latest r.job.jobId (dispatches log) = some owner
    dispatch := fun c r => Passed c r.job.jobId
    recover := Recent }

/-- What the guards of a stretch have to say for the tokens. -/
structure Fences (G : Guards) : Prop where
  renew : ∀ log r owner, G.renew log r owner → (r.job.jobId, owner) ∈ dispatches log →
    latest r.job.jobId (dispatches log) = some owner
  dispatch : ∀ c r, G.dispatch c r → Passed c r.job.jobId
  recover : ∀ log, G.recover log → Recent log

theorem fences_ahead : Fences Guards.ahead := ⟨fun _ _ _ h => h, fun _ _ h => h, fun _ h => h⟩

theorem fences_pass : Fences Guards.ahead.inPass :=
  ⟨fun _ _ _ h => h.elim, fun _ _ h => h, fun _ h => h.elim⟩

theorem Leased.change {j : String} {r r' : JobRecord} (h : Leased (dispatches c.log) r)
    (hG : Fences G) (hn : Named (dispatches c.log)) (hc : Change G o now c j r r') :
    Leased (dispatches c.log) r' := by
  cases hc with
  | stamp newer ha => exact ⟨h.idle, h.current⟩
  | result head hr => exact ⟨nofun, h.current⟩
  | requeue | retry | complete | again => exact .of_unleased hn rfl
  | drop s reason newer owner expires hs ht hf hl hd =>
    rcases hl with ⟨hq, rfl, -⟩ | ⟨rfl, -⟩
    · exact .of_unleased hn (h.idle (by rw [hq]; rfl))
    · exact .of_unleased hn rfl
  | renew owner ho hf hx hg =>
    refine ⟨fun hi => ?_, hG.renew _ r owner hg⟩
    rcases hx with hv | ⟨hw, -⟩
    · obtain ⟨he, hne⟩ := leaseOwner_of_leaseIsValid hv
      exact absurd (he ▸ h.idle hi) hne
    · rw [isActiveState_of_working hw] at hi
      cases hi

theorem Leased.recovery {r' : JobRecord} {n : Nat}
    (h : Leased ds r) (hn : Named ds) (hr : Recovery now n r r') : Leased ds r' := by
  cases hr with
  | keep => exact h
  | keepPublishing | requeue | fail => exact .of_unleased hn rfl

/-! ## The invariant -/

/-- The tokens of a history and the leases over it. -/
structure Fencing (c : Controller) : Prop where
  named : Named (dispatches c.log)
  nodup : (dispatches c.log).Nodup
  memory : ∀ j r, c.records.get? j = some r → Leased (dispatches c.log) r
  store : ∀ j r, (saved c.log).get? j = some r →
    (isActiveState r.state = false → r.leaseOwner = "") ∧
      (starts j (unsaved c.log) = 0 → Leased (dispatches c.log) r)

/-- A store that is recent holds leases like memory does. -/
theorem Fencing.recent (h : Fencing c) (hr : Recent c.log)
    (hok : SnapshotOk (lastSaved c.log).records) {j : String} {r : JobRecord}
    (hj : (saved c.log).get? j = some r) : Leased (dispatches c.log) r := by
  obtain ⟨hidle, hl⟩ := h.store j r hj
  cases ha : isActiveState r.state with
  | false => exact .of_unleased h.named (hidle ha)
  | true =>
    obtain ⟨hm, rfl⟩ := (get?_saved hok).mp hj
    exact hl (hr r hm ha)

theorem Leased.cons {ds : List (String × String)} {r : JobRecord} (h : Leased ds r)
    {j : String} (hne : j ≠ r.job.jobId) (token : String) : Leased ((j, token) :: ds) r := by
  refine ⟨h.idle, fun hm => ?_⟩
  rw [latest_cons_ne hne]
  rcases List.mem_cons.mp hm with he | hm
  · exact absurd (Prod.mk.inj he).1.symm hne
  · exact h.current hm

theorem Fencing.atomic (h : Fencing c) (hG : Fences G) (hk : Keyed c.records)
    (hs : Atomic G o now c c') : Fencing c' := by
  cases hs with
  | @change j r r' hj hc =>
    refine ⟨h.named, h.nodup, fun i x hx => ?_, h.store⟩
    rw [Map.get?_set] at hx
    split at hx
    · cases hx
      exact (h.memory j r hj).change hG h.named hc
    · exact h.memory i x hx
  | insert hv hj hr hg =>
    obtain ⟨-, -, -, rfl⟩ := newJobRecord_ok hr
    refine ⟨h.named, h.nodup, fun i x hx => ?_, h.store⟩
    rw [Map.get?_set] at hx
    split at hx
    · cases hx
      exact .of_unleased h.named rfl
    · exact h.memory i x hx
  | @dispatch r running hj he ha hsib hc hf hr hg =>
    obtain ⟨-, hq, rfl⟩ := runningRecord_ok hr
    have hfresh := (hG.dispatch c r hg).fresh
    refine ⟨?_, List.nodup_cons.mpr ⟨hfresh, h.nodup⟩, fun i x hx => ?_, fun i x hx => ?_⟩
    · intro d hd
      rcases List.mem_cons.mp hd with rfl | hd
      · exact leaseToken_ne_empty _ _
      · exact h.named d hd
    · change (c.records.set r.job.jobId _).get? i = some x at hx
      rw [Map.get?_set] at hx
      split at hx
      · cases hx
        exact ⟨by simp [isActiveState], fun _ => latest_cons_self _ _ _⟩
      · next hne =>
        refine (h.memory i x hx).cons ?_ _
        rw [hk i x hx]
        exact Ne.symm hne
    · obtain ⟨hidle, hl⟩ := h.store i x hx
      refine ⟨hidle, fun h0 => ?_⟩
      change starts i (_ :: unsaved c.log) = 0 at h0
      rw [starts_cons] at h0
      have hne : r.job.jobId ≠ i := by
        rintro rfl
        simp at h0
      refine (hl (by omega)).cons ?_ _
      rw [keyed_boot c.log i x hx]
      exact hne
  | publish => exact ⟨h.named, h.nodup, h.memory, h.store⟩
  | save hp =>
    refine ⟨h.named, h.nodup, h.memory, fun j r hj => ?_⟩
    rw [get?_saved_save hk hp] at hj
    have hl := h.memory j r hj
    exact ⟨hl.idle, fun _ => hl⟩
  | adopt hn hok hr hg hrec =>
    refine ⟨h.named, h.nodup, fun j r hj => ?_, h.store⟩
    rw [get?_adopt hok hr, Option.map_eq_some_iff] at hj
    obtain ⟨x, hx, rfl⟩ := hj
    exact (h.recent (hG.recover _ hrec) hok hx).recovery h.named (reconcileRecord_recovery _ _ _)
  | book hb =>
    have hq := hb.quiet
    refine ⟨?_, ?_, ?_, ?_⟩
    · rw [hq.dispatches.1]; exact h.named
    · rw [hq.dispatches.1]; exact h.nodup
    · rw [hq.dispatches.1, hq.records]; exact h.memory
    · rw [hq.dispatches.1, hq.dispatches.2, hq.saved]; exact h.store

theorem Fencing.boot (h : Fencing c) (hr : Recent c.log)
    (hok : SnapshotOk (lastSaved c.log).records) : Fencing (boot c.log) :=
  ⟨h.named, h.nodup, fun _ _ hj => h.recent hr hok hj, h.store⟩

/-! ## The scheduling pass -/

/-- A counter that has passed the numbers of a job stays ahead. -/
theorem Passed.atomic (h : Passed c j) (hs : Atomic G o now c c') : Passed c' j := by
  cases hs with
  | change | insert | publish | save | adopt => exact h
  | dispatch hj he ha hsib hc hf hr hg =>
    obtain ⟨-, -, rfl⟩ := runningRecord_ok hr
    intro d hm hd
    rcases List.mem_cons.mp hm with rfl | hm
    · exact ⟨c.leaseTokenCounter + 1, Nat.lt_succ_self _, by rw [← hd]⟩
    · obtain ⟨n, hn, he⟩ := h d hm hd
      exact ⟨n, Nat.lt_succ_of_lt hn, he⟩
  | book hb =>
    have hq := hb.quiet
    intro d hm hd
    rw [hq.dispatches.1] at hm
    obtain ⟨n, hn, he⟩ := h d hm hd
    exact ⟨n, lt_of_lt_of_le hn (Nat.succ_le_succ hq.counter), he⟩

/-! ## Runs -/

/-- The label does not bring a token back: see the head of this module. -/
def Ahead (o : SchedulerOptions) (c : Controller) (l : Label) : Prop :=
  (∀ log ∈ diesAt o c l, Recent log) ∧
    match l.event with
    | .tick | .shutdown _ | .drainStep _ =>
      ∀ r ∈ c.records.values, dispatchable l.now r = true → Passed c r.job.jobId
    | .adoptRecovered j owner => ∀ r ∈ recoverable c j,
      (r.job.jobId, owner) ∈ dispatches c.log →
        latest r.job.jobId (dispatches c.log) = some owner
    | .recover => Recent c.log
    | _ => True

instance (o : SchedulerOptions) (c : Controller) (l : Label) : Decidable (Ahead o c l) := by
  delta Ahead
  refine @instDecidableAnd _ _ inferInstance ?_
  haveI := lawfulBEq_pairs
  rcases l with ⟨_ | _, now, store, crash⟩ <;> infer_instance

/-- The guards of a label: those of a scheduling pass where there is one. -/
def guardsOf (l : Label) : Guards :=
  match l.event with
  | .tick | .shutdown _ | .drainStep _ => Guards.ahead.inPass
  | _ => Guards.ahead

theorem fences_guardsOf (l : Label) : Fences (guardsOf l) := by
  unfold guardsOf
  split
  · exact fences_pass
  · exact fences_pass
  · exact fences_pass
  · exact fences_ahead

theorem eventGuard_ahead {l : Label} (h : Fencing c) (hk : Keyed c.records) (hl : Ahead o c l) :
    EventGuard (guardsOf l) o l.now c l.event := by
  have hl := hl.2
  have pass : ∀ c' : Controller, c'.records = c.records → (∀ j, Passed c j → Passed c' j) →
      (∀ r ∈ c.records.values, dispatchable l.now r = true → Passed c r.job.jobId) →
      TickGuard Guards.ahead.inPass o l.now c' := fun c' hrec hkeep hp =>
    tickGuard_pass (Q := Passed) (fun _ => trivial) (fun _ _ h => h) (fun _ _ _ h hs => h.atomic hs)
      fun j r hr hd => by
        rw [hrec] at hr
        rw [← hk j r hr]
        exact hkeep _ (hp r (Map.mem_values_iff.mpr ⟨j, hr⟩) hd)
  unfold guardsOf
  cases he : l.event with
  | tick | shutdown | drainStep =>
    rw [he] at hl
    exact pass _ rfl (fun _ h => h) hl
  | settleDone => exact trivial
  | resolveRecovered | publishSettled => exact fun _ _ => trivial
  | enqueue | executorSettled => exact fun _ _ _ _ => trivial
  | recover =>
    rw [he] at hl
    exact ⟨fun _ _ _ => trivial, hl⟩
  | adoptRecovered j owner =>
    rw [he] at hl
    exact fun _ r hr => hl r hr
  | heartbeat j owner =>
    intro r hr hv hm
    obtain ⟨rfl, -⟩ := leaseOwner_of_leaseIsValid hv
    exact (h.memory j r hr).current hm

/-- Along a run the tokens of a job are different, and the latest dispatch holds the lease. -/
theorem fencing_run {ls : List Label} (h : Along o (Ahead o) fresh ls) :
    Fencing (run o fresh ls) := by
  have hall : Fencing (run o fresh ls) ∧ SnapshotOk (lastSaved (run o fresh ls).log).records :=
    run_invariant (G := guardsOf)
      (I := fun c => Fencing c ∧ SnapshotOk (lastSaved c.log).records) (keyed_boot [])
      ⟨⟨by rintro d ⟨⟩, .nil, by rintro j r ⟨⟩, by rintro j r ⟨⟩⟩, savedOk_run o []⟩ h
      (fun l _ _ hk hi hs => ⟨hi.1.atomic (fences_guardsOf l) hk hs, savedOk_atomic hs hi.2⟩)
      (fun _ _ m hl hd hi => ⟨hi.1.boot (hl.1 _ hd) hi.2, hi.2⟩)
      fun _ _ hk hi hl => eventGuard_ahead hi.1 hk hl
  exact hall.1

/-- The dispatch is over: a later one has replaced it, or the record is not active any more. -/
def Abandoned (c : Controller) (jobId token : String) : Prop :=
  (jobId, token) ∈ dispatches c.log ∧
    (latest jobId (dispatches c.log) ≠ some token ∨
      ∀ r, c.records.get? jobId = some r → isActiveState r.state = false)

/-- An abandoned dispatch does not hold the lease. -/
theorem Fencing.ne_of_abandoned (h : Fencing c) (hk : Keyed c.records) {j token : String}
    (ha : Abandoned c j token) {r : JobRecord} (hr : c.records.get? j = some r) :
    r.leaseOwner ≠ token := by
  rintro rfl
  obtain ⟨hm, hlate | hidle⟩ := ha
  · have hl := h.memory j r hr
    rw [← hk j r hr] at hm hlate
    exact hlate (hl.current hm)
  · exact h.named _ hm ((h.memory j r hr).idle (hidle r hr))

theorem releaseController_frame (j token : String) (c : Controller) :
    ((releaseController j token).final c).records = c.records ∧
      ((releaseController j token).final c).log = c.log := by
  change (if _ then _ else c : Controller).records = _ ∧ (if _ then _ else c : Controller).log = _
  split <;> exact ⟨rfl, rfl⟩

/-- A settlement under a token that the record does not hold only forgets its own handle. -/
theorem settle_revoked
    (h : ∀ r, c.records.get? j = some r → r.leaseOwner ≠ token) :
    ((settle o store now j token outcome).final c).records = c.records ∧
      ((settle o store now j token outcome).final c).log = c.log := by
  have hs : settle o store now j token outcome c = releaseController j token c := by
    rw [settle, Action.get_bind]
    cases hj : c.records.get? j with
    | none => rfl
    | some r =>
      dsimp only
      rw [if_pos (by simp [h r hj])]
  unfold Action.final
  rw [hs]
  exact releaseController_frame j token c

theorem executorSettled_revoked
    (h : ∀ r, c.records.get? j = some r → r.leaseOwner ≠ token) :
    ((executorSettled o store now j token outcome).final c).records = c.records ∧
      ((executorSettled o store now j token outcome).final c).log = c.log := by
  by_cases hm : (j, token) ∈ c.executions
  · have hs : executorSettled o store now j token outcome c =
        settle o store now j token outcome
          { c with executions := c.executions.erase (j, token) } := by
      change (if _ then _ else _ : Op Unit) c = _
      rw [if_pos hm]
      rfl
    unfold Action.final
    rw [hs]
    exact settle_revoked (c := { c with executions := c.executions.erase (j, token) }) h
  · have hs : executorSettled o store now j token outcome c = .ok ⟨⟩ c := by
      change (if _ then _ else _ : Op Unit) c = _
      rw [if_neg hm]
      rfl
    unfold Action.final
    rw [hs]
    exact ⟨rfl, rfl⟩

/-- A heartbeat under a token that the record does not hold is refused. -/
theorem heartbeat_revoked
    (h : ∀ r, c.records.get? j = some r → r.leaseOwner ≠ token) :
    heartbeat o store now j token c = .ok false c := by
  rw [heartbeat, Action.get_bind]
  cases hj : c.records.get? j with
  | none => rfl
  | some r =>
    have hv : leaseIsValid r token now = false := by
      by_contra hx
      exact h r hj (leaseOwner_of_leaseIsValid (by simpa using hx)).1
    dsimp only
    rw [if_pos (by rw [hv]; rfl)]
    rfl

end PrReviewer.Queue
