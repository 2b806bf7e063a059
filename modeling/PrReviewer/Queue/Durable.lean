import PrReviewer.Queue.Saved

/-!
# Durable results

Once the store holds a record with a durable result, the record stays settled: its job is not started
again, its attempts and its result stay, and it can only complete or be superseded (`durable_run`).

Lease expiry, deadlines, shutdown and recovery pass such a record by. The one way to lose a result is
a settlement of the same job under the lease that the record still holds. `Lasting` keeps that lease
apart from the executor promises that are pending: within a process each dispatch has its own token
(`leaseToken_inj`), and a promise settles once. So what remains is `resolveRecovered`, which settles a
record under the record's own lease: it must not run while an executor promise of this process is
pending for that very lease (`SettlesOwn`). A token of the process before can come back in this one,
so the code lets that happen (`durable_lost`). What has ended has no such way out (`ended_stays`).
-/

open Js List

namespace PrReviewer.Queue

variable {G : Guards} {o : SchedulerOptions} {now : Number} {c c' : Controller}

/-! ## Pending promises -/

/-- The pending promises are of different dispatches, each under a number that the counter has
passed. -/
structure Numbered (c : Controller) : Prop where
  nodup : c.executions.Nodup
  number : ∀ j token, (j, token) ∈ c.executions →
    ∃ n, n ≤ c.leaseTokenCounter ∧ token = leaseToken j n

theorem Numbered.ne_empty (h : Numbered c) {j token : String} (ht : (j, token) ∈ c.executions) :
    token ≠ "" := by
  obtain ⟨n, -, rfl⟩ := h.number j token ht
  exact leaseToken_ne_empty j n

theorem Numbered.fresh (h : Numbered c) (j : String) :
    (j, leaseToken j (c.leaseTokenCounter + 1)) ∉ c.executions := by
  intro hm
  obtain ⟨n, hn, he⟩ := h.number _ _ hm
  have := leaseToken_inj he
  omega

theorem Numbered.boot (log : List Effect) : Numbered (boot log) :=
  ⟨.nil, fun _ _ h => absurd h not_mem_nil⟩

theorem Numbered.quiet (h : Numbered c) (hq : Quiet c c') : Numbered c' := by
  refine ⟨h.nodup.sublist hq.executions, fun j token hm => ?_⟩
  obtain ⟨n, hn, he⟩ := h.number j token (hq.executions.subset hm)
  exact ⟨n, hn.trans hq.counter, he⟩

theorem Numbered.atomic (h : Numbered c) (hs : Atomic G o now c c') : Numbered c' := by
  cases hs with
  | change | insert | publish | save | adopt => exact ⟨h.nodup, h.number⟩
  | book hb => exact h.quiet hb.quiet
  | @dispatch r running hj he ha hsib hc hf hr hg =>
    obtain ⟨-, -, rfl⟩ := runningRecord_ok hr
    refine ⟨nodup_cons.mpr ⟨h.fresh _, h.nodup⟩, fun j token hm => ?_⟩
    rcases mem_cons.mp hm with he | hm
    · cases he
      exact ⟨c.leaseTokenCounter + 1, Nat.le_refl _, rfl⟩
    · obtain ⟨n, hn, ht⟩ := h.number j token hm
      exact ⟨n, Nat.le_succ_of_le hn, ht⟩

/-! ## What becomes of a durable result -/

/-- What may become of a record `r₀` with a durable result. -/
structure Kept (r₀ r : JobRecord) : Prop where
  job : r.job = r₀.job
  attempt : r.attempt = r₀.attempt
  head : r.resultHeadSha = r₀.resultHeadSha
  state : r.state = .publishing ∨ r.state = .completed ∨ r.state = .superseded

variable {r r₀ r' : JobRecord} {n : Nat} {m : Map String JobRecord} {xs : List (String × String)}
  {j : String}

theorem Kept.refl (h : r.durable = true) : Kept r r :=
  ⟨rfl, rfl, rfl, .inl (state_of_durable h).1⟩

/-- A kept record that is still active is durable itself. -/
theorem Kept.durable (h : Kept r₀ r) (h₀ : r₀.durable = true)
    (ha : isActiveState r.state = true) : r.durable = true := by
  have hp : r.state = .publishing := by
    rcases h.state with hp | hs | hs
    · exact hp
    · rw [hs] at ha; cases ha
    · rw [hs] at ha; cases ha
  simp [JobRecord.durable, hp, h.head, (state_of_durable h₀).2]

theorem Kept.not_queued (h : Kept r₀ r) : r.state ≠ .queued := by
  rcases h.state with hs | hs | hs <;> simp [hs]

theorem Kept.not_blocking (h : Kept r₀ r) (h₀ : r₀.durable = true) :
    r.blocking = false := by
  cases ha : isActiveState r.state with
  | false => simp [JobRecord.blocking, ha]
  | true => simp [JobRecord.blocking, h.durable h₀ ha]

/-- Recovery passes by what is kept. -/
theorem Kept.recovery (h : Kept r₀ r) (h₀ : r₀.durable = true)
    (hr : Recovery now n r r') : Kept r₀ r' := by
  cases hr with
  | keep | keepPublishing => exact ⟨h.job, h.attempt, h.head, h.state⟩
  | requeue hb | fail hb => rw [h.not_blocking h₀] at hb; cases hb

/-- A settlement finds a record without a durable result, and no other promise of its lease. -/
def Guards.settlesOwn : Guards :=
  { Guards.none with
    settle := fun pending _ r => (r.job.jobId, r.leaseOwner) ∉ pending ∧ r.durable = false }

theorem Kept.change {r₀ r r' : JobRecord} {j : String} (h : Kept r₀ r) (h₀ : r₀.durable = true)
    (hc : Change Guards.settlesOwn o now c j r r') : Kept r₀ r' := by
  -- what an active record without a result could do, this one cannot
  have absurd_of : isActiveState r.state = true → r.durable = false → False := fun ha hd => by
    rw [h.durable h₀ ha] at hd
    cases hd
  have active_of : r.terminal = false → isActiveState r.state = true := fun ht => by
    rcases h.state with hs | hs | hs <;> simp_all [JobRecord.terminal, isTerminalState, isActiveState]
  cases hc with
  | stamp | again | renew => exact ⟨h.job, h.attempt, h.head, h.state⟩
  | complete => exact ⟨h.job, h.attempt, h.head, .inr (.inl rfl)⟩
  | drop s reason newer owner expires hs ht hn hl hd =>
    rcases hd with rfl | hd | hd
    · exact ⟨h.job, h.attempt, h.head, .inr (.inr rfl)⟩
    · exact (absurd_of (active_of ht) hd).elim
    · obtain ⟨_, hd⟩ := hd
      exact (absurd_of (active_of ht) hd.2).elim
  | requeue hl ha hs hn hg =>
    have hb := blocking_of_leaseLapsed hl
    have hx : isActiveState r.state = true := by
      simp only [JobRecord.blocking, Bool.and_eq_true] at hb
      exact hb.1
    exact (absurd_of hx (not_durable_of_blocking hb)).elim
  | retry hx ha hc hn hg => exact (absurd_of hx hg.2).elim
  | result head hr hn hg => exact (absurd_of (by rw [hr]; rfl) hg.2).elim

theorem stays_kept (h₀ : r₀.durable = true) :
    Stays Guards.settlesOwn o (Kept r₀) r₀.job.jobId where
  not_queued _ h := h.not_queued
  change _ _ _ _ h _ hc := h.change h₀ hc
  recovery _ _ _ h _ hr _ := h.recovery h₀ hr

/-! ## The invariant -/

/-- A durable record is not under the lease of a pending promise. -/
def Fenced (records : Map String JobRecord) (pending : List (String × String)) : Prop :=
  ∀ j r, records.get? j = some r → r.durable = true → (j, r.leaseOwner) ∉ pending

theorem Fenced.sublist {ys : List (String × String)}
    (h : Fenced m ys) (hs : xs.Sublist ys) : Fenced m xs :=
  fun j r hr hd hm => h j r hr hd (hs.subset hm)

/-- A set of a record that is not durable, or is fenced off itself. -/
theorem Fenced.set
    (h : Fenced m xs) (hr : r.durable = true → (j, r.leaseOwner) ∉ xs) :
    Fenced (m.set j r) xs := by
  intro i x hx hd
  rw [Map.get?_set] at hx
  split at hx
  · next hij => subst hij; cases hx; exact hr hd
  · exact h i x hx hd

theorem Fenced.change {j : String} {r r' : JobRecord} (h : Fenced c.records c.executions)
    (hn : Numbered c) (hk : Keyed c.records) (hj : c.records.get? j = some r)
    (hc : Change Guards.settlesOwn o now c j r r') :
    Fenced (c.records.set j r') c.executions := by
  refine h.set fun hd => ?_
  cases hc with
  | stamp newer ha => exact h j r hj hd
  | drop s reason newer owner expires hs ht hn' hl hd' =>
    obtain rfl : s = .publishing := (state_of_durable hd).1
    cases hs
  | requeue | retry | complete => cases (state_of_durable hd).1
  | result head hr hn' hg => rw [← hk j r hj]; exact hg.1
  | again hp => exact fun hm => hn.ne_empty hm rfl
  | renew owner ho hn' hx hg =>
    rcases hx with hv | ⟨hw, -⟩
    · -- the owner of a live lease renews it
      have he := (leaseOwner_of_leaseIsValid hv).1
      subst he
      exact h j r hj hd
    · rw [JobRecord.working, (state_of_durable hd).1] at hw
      cases hw

/-- What recovery makes of a record that is fenced off is fenced off. -/
theorem Fenced.recovery
    (h : Fenced m c.executions) (hn : Numbered c) (hj : m.get? j = some r)
    (hr : Recovery now n r r') (hd : r'.durable = true) : (j, r'.leaseOwner) ∉ c.executions := by
  cases hr with
  | keep => exact h j r hj hd
  | keepPublishing => exact fun hm => hn.ne_empty hm rfl
  | requeue | fail => cases (state_of_durable hd).1

/-- What the durable results of the store rest on. -/
structure Lasting (c : Controller) : Prop where
  numbered : Numbered c
  memory : Fenced c.records c.executions
  store : Fenced (saved c.log) c.executions
  kept : ∀ j r, (saved c.log).get? j = some r → r.durable = true →
    Holds (Kept r) r.job.jobId c.records

theorem Lasting.boot (log : List Effect) : Lasting (boot log) where
  numbered := Numbered.boot log
  memory _ _ _ _ := not_mem_nil
  store _ _ _ _ := not_mem_nil
  kept := Outlives.boot (fun _ => Kept.refl) log

theorem Lasting.atomic (h : Lasting c) (hk : Keyed c.records)
    (hs : Atomic Guards.settlesOwn o now c c') : Lasting c' := by
  have hnum := h.numbered.atomic hs
  have hkept := Outlives.atomic h.kept (fun _ => stays_kept) (fun _ => Kept.refl) hk hs
  cases hs with
  | change hj hc => exact ⟨hnum, h.memory.change h.numbered hk hj hc, h.store, hkept⟩
  | insert hv hj hr hg =>
    obtain ⟨-, -, -, rfl⟩ := newJobRecord_ok hr
    refine ⟨hnum, h.memory.set fun hd => ?_, h.store, hkept⟩
    cases (state_of_durable hd).1
  | @dispatch r running hj he ha hsib hc hf hr hg =>
    obtain ⟨-, hq, rfl⟩ := runningRecord_ok hr
    refine ⟨hnum, fun i x hx hd => ?_, fun i x hx hd => ?_, hkept⟩
    · change (c.records.set r.job.jobId _).get? i = some x at hx
      rw [Map.get?_set] at hx
      split at hx
      · cases hx
        cases (state_of_durable hd).1
      · next hne =>
        refine not_mem_cons_of_ne_of_not_mem (fun he => ?_) (h.memory i x hx hd)
        exact hne (Prod.mk.inj he).1
    · -- a job with a durable result in the store is not queued
      refine not_mem_cons_of_ne_of_not_mem (fun he => ?_) (h.store i x hx hd)
      obtain ⟨y, hy, hkept⟩ := h.kept i x hx hd
      rw [keyed_boot c.log i x hx, (Prod.mk.inj he).1, hj] at hy
      cases hy
      exact hkept.not_queued hq
  | publish hj hp hm hn => exact ⟨hnum, h.memory, h.store, hkept⟩
  | save hp =>
    refine ⟨hnum, h.memory, fun j r hr hd => ?_, hkept⟩
    rw [get?_saved_save hk hp] at hr
    exact h.memory j r hr hd
  | adopt hn hok hr hg hrec =>
    refine ⟨hnum, fun j r hj hd => ?_, h.store, hkept⟩
    rw [get?_adopt hok hr, Option.map_eq_some_iff] at hj
    obtain ⟨x, hx, rfl⟩ := hj
    exact h.store.recovery (c := c) h.numbered hx (reconcileRecord_recovery _ _ _) hd
  | book hb =>
    have hq := hb.quiet
    refine ⟨hnum, ?_, ?_, hkept⟩
    · rw [hq.records]; exact h.memory.sublist hq.executions
    · rw [hq.saved]; exact h.store.sublist hq.executions

/-! ## Runs -/

/-- A recovered outcome settles a record only when no executor promise of this process is pending for
the lease that the record holds. -/
def SettlesOwn (c : Controller) (l : Label) : Prop :=
  match l.event with
  | .resolveRecovered j _ => ∀ r ∈ recoverable c j, (j, r.leaseOwner) ∉ c.executions
  | _ => True

instance (c : Controller) (l : Label) : Decidable (SettlesOwn c l) := by
  delta SettlesOwn
  haveI := lawfulBEq_pairs
  rcases l with ⟨_ | _, now, store, crash⟩ <;> infer_instance

theorem not_durable_of_working (h : r.working = true) : r.durable = false := by
  cases hd : r.durable with
  | false => rfl
  | true =>
    rw [JobRecord.working, (state_of_durable hd).1] at h
    cases h

theorem eventGuard_settlesOwn {l : Label} (h : Lasting c) (hk : Keyed c.records)
    (hl : SettlesOwn c l) : EventGuard Guards.settlesOwn o now c l.event := by
  unfold SettlesOwn at hl
  cases he : l.event with
  | tick | shutdown | drainStep => exact tickGuard_free (fun _ => trivial) fun _ _ => trivial
  | settleDone => exact trivial
  | enqueue => exact fun _ _ _ _ => trivial
  | heartbeat | adoptRecovered => exact fun _ _ _ => trivial
  | publishSettled => exact fun _ _ => trivial
  | recover => exact ⟨fun _ _ _ => trivial, trivial⟩
  | resolveRecovered j outcome =>
    rw [he] at hl
    intro r hr
    obtain ⟨hj, hw, -⟩ := recoverable_eq_some hr
    exact ⟨by rw [hk j r hj]; exact hl r hr, not_durable_of_working hw⟩
  | executorSettled j token outcome =>
    -- the promise that settles was the only one of its lease, and kept the record from a result
    rintro hm r hr rfl
    refine ⟨?_, ?_⟩
    · rw [hk j r hr]
      exact h.numbered.nodup.not_mem_erase
    · cases hd : r.durable with
      | false => rfl
      | true => exact absurd hm (h.memory j r hr hd)

/-- An effect that leaves the durable result `r₀` alone. -/
def Leaves (r₀ : JobRecord) : Effect → Prop
  | .start r => r.job.jobId ≠ r₀.job.jobId
  | .save s => ∃ r ∈ s.records, Kept r₀ r
  | .abort _ _ | .publish _ => True

theorem watches_leaves (r₀ : JobRecord) : Watches (Kept r₀) r₀.job.jobId (Leaves r₀) where
  start _ h := h
  abort _ _ := trivial
  publish _ _ _ _ := trivial
  save _ r hr h := ⟨r, hr, h⟩

/-- Along a run the store rests on its results. -/
theorem lasting_run {o : SchedulerOptions} {ls : List Label} (hs : Along o SettlesOwn fresh ls) :
    Lasting (run o fresh ls) :=
  run_invariant (G := fun _ => Guards.settlesOwn) (keyed_boot []) (Lasting.boot []) hs
    (fun _ _ _ hk hi hstep => Lasting.atomic hi hk hstep) (fun _ _ m _ _ _ => Lasting.boot m.log)
    fun _ _ hk hi hl => eventGuard_settlesOwn hi hk hl

/-- **Durable results are never lost or recomputed.** Once the store holds `r₀` with its result, in
every state that follows memory and the store hold what is kept of it, every snapshot saved since does,
and its job has not been started again. -/
theorem durable_run {o : SchedulerOptions} {pre post : List Label}
    (hs : Along o SettlesOwn fresh (pre ++ post)) {r₀ : JobRecord}
    (hr : r₀ ∈ (lastSaved (run o fresh pre).log).records) (hd : r₀.durable = true) :
    Lasts (Kept r₀) r₀.job.jobId (Leaves r₀) (run o fresh pre).log
      (run o fresh (pre ++ post)) := by
  obtain ⟨hpre, hpost⟩ := along_append.mp hs
  have hget := (get?_saved (savedOk_run o pre)).mpr ⟨hr, rfl⟩
  have hlast := lasting_run hpre
  have hmem := hlast.kept _ r₀ hget hd
  have hstore := Holds.of_get? (keyed_boot _) hget (Kept.refl hd)
  rw [run_append]
  have hall := run_invariant (G := fun _ => Guards.settlesOwn)
    (I := fun c => Lasting c ∧ Lasts (Kept r₀) r₀.job.jobId (Leaves r₀) (run o fresh pre).log c)
    (keyed_run o pre) ⟨hlast, hmem, hstore, Since.refl _ _⟩ hpost
    (fun _ _ _ hk hi hstep => ⟨hi.1.atomic hk hstep,
      hi.2.atomic (stays_kept hd) (watches_leaves r₀) hk hstep⟩)
    (fun _ _ m _ _ hi => ⟨Lasting.boot m.log, hi.2.boot⟩)
    (fun _ _ hk hi hl => eventGuard_settlesOwn hi.1 hk hl)
  exact hall.2

/-- One review that ends with a result, in a process of its own. -/
def completedReview : List Label :=
  [(enqueueOf "a").at 0, Event.tick.at 0,
    (Event.executorSettled "a" "lease-a-1" ⟨.completed, "abc", ""⟩).at 1,
    (Event.settleDone "a" "lease-a-1").at 1]

/-- The process dies before the result is published; the next one publishes it. -/
theorem durable_run_restart :
    let post := [dies 2, Event.recover.at 20, Event.tick.at 20]
    ∃ r₀ ∈ (lastSaved (run exampleOptions fresh completedReview).log).records,
      r₀.durable = true ∧
        Lasts (Kept r₀) r₀.job.jobId (Leaves r₀) (run exampleOptions fresh completedReview).log
          (run exampleOptions fresh (completedReview ++ post)) := by
  intro post
  have hs : Along exampleOptions SettlesOwn fresh (completedReview ++ post) := by decide +kernel
  have hex : ∃ r₀ ∈ (lastSaved (run exampleOptions fresh completedReview).log).records,
      r₀.durable = true := by decide +kernel
  obtain ⟨r₀, hr, hd⟩ := hex
  exact ⟨r₀, hr, hd, durable_run hs hr hd⟩

/-- A worker of the process before, a recovered outcome without a result, and a new dispatch of the
same token. When the first settlement resumes it forgets the handle of the live dispatch, so that a
second recovered outcome is accepted while the worker still runs. -/
def lostReview : List Label :=
  [(enqueueOf "a").at 0, Event.tick.at 0, dies 0, Event.recover.at 5,
    (Event.resolveRecovered "a" ⟨.completed, "", ""⟩).at 12, Event.tick.at 12,
    (Event.settleDone "a" "lease-a-1").at 12,
    (Event.resolveRecovered "a" ⟨.completed, "abc", ""⟩).at 13,
    (Event.settleDone "a" "lease-a-1").at 13]

/-- **A durable result can be lost**: the store holds the result of `a`; then the worker of the live
dispatch is cancelled, and the record with it. -/
theorem durable_lost :
    let cancel := (Event.executorSettled "a" "lease-a-1" ⟨.cancelled, "", ""⟩).at 14
    ((lastSaved (run exampleOptions fresh lostReview).log).records.map fun r =>
        (r.job.jobId, r.state, r.resultHeadSha)) = [("a", .publishing, "abc")] ∧
      ((lastSaved (run exampleOptions fresh (lostReview ++ [cancel])).log).records.map fun r =>
        (r.job.jobId, r.state)) = [("a", .cancelled)] := by
  decide +kernel

/-! ## Ended jobs -/

/-- `r` is the ended record `r₀`, but for a lease that a heartbeat has renewed. -/
def SameEnd (r₀ r : JobRecord) : Prop :=
  { r with
    leaseOwner := r₀.leaseOwner, leaseExpiresAtMs := r₀.leaseExpiresAtMs,
    updatedAtMs := r₀.updatedAtMs } = r₀

theorem SameEnd.terminal (h : SameEnd r₀ r) (ht : r₀.terminal = true) : r.terminal = true := by
  rw [← h] at ht
  exact ht

theorem SameEnd.change (h : SameEnd r₀ r) (ht : r₀.terminal = true)
    (hc : Change Guards.none o now c j r r') : SameEnd r₀ r' := by
  have hr := h.terminal ht
  have hx := not_active_of_terminal hr
  cases hc with
  | renew => exact h
  | stamp newer ha | retry ha => rw [hx] at ha; cases ha
  | drop s reason newer owner expires hs hn => rw [hr] at hn; cases hn
  | requeue hl => rw [leaseLapsed_of_terminal hr] at hl; cases hl
  | result head hs | complete next hs | again hs => rw [JobRecord.terminal, hs] at hr; cases hr

theorem stays_sameEnd (ht : r₀.terminal = true) :
    Stays Guards.none o (SameEnd r₀) r₀.job.jobId where
  not_queued r h hq := by
    have hr := h.terminal ht
    rw [JobRecord.terminal, hq] at hr
    cases hr
  change _ _ _ _ h _ hc := h.change ht hc
  recovery now r r' h _ hr _ := by
    have hx := not_active_of_terminal (h.terminal ht)
    cases hr with
    | keep => exact h
    | keepPublishing hd => rw [(state_of_durable hd).1] at hx; cases hx
    | requeue hb | fail hb => simp [JobRecord.blocking, hx] at hb

/-- An effect that leaves the ended record `r₀` alone. -/
def LeavesEnd (r₀ : JobRecord) : Effect → Prop
  | .start r | .publish r => r.job.jobId ≠ r₀.job.jobId
  | .save s => ∃ r ∈ s.records, SameEnd r₀ r
  | .abort _ _ => True

theorem watches_leavesEnd (ht : r₀.terminal = true) :
    Watches (SameEnd r₀) r₀.job.jobId (LeavesEnd r₀) where
  start _ h := h
  abort _ _ := trivial
  publish r hp _ h he := by
    have hr := (h he).terminal ht
    rw [JobRecord.terminal, hp] at hr
    cases hr
  save _ r hr h := ⟨r, hr, h⟩

/-- **An ended job stays ended.** Once the store holds its record `r₀`, in every state that follows
memory and the store hold it, and the job has been neither started nor published again. -/
theorem ended_stays {o : SchedulerOptions} {pre post : List Label} {r₀ : JobRecord}
    (hr : r₀ ∈ (lastSaved (run o fresh pre).log).records) (ht : r₀.terminal = true) :
    Lasts (SameEnd r₀) r₀.job.jobId (LeavesEnd r₀) (run o fresh pre).log
      (run o fresh (pre ++ post)) := by
  have hget := (get?_saved (savedOk_run o pre)).mpr ⟨hr, rfl⟩
  have hself : ∀ r : JobRecord, r.terminal = true → SameEnd r r := fun _ _ => rfl
  have hkept : Outlives (fun r => r.terminal = true) SameEnd (run o fresh pre) :=
    run_invariant' (.boot hself [])
      (fun _ _ _ hk hi hs => hi.atomic (fun _ => stays_sameEnd) hself hk hs) fun c _ => .boot hself c.log
  rw [run_append]
  exact run_invariant (G := fun _ => Guards.none) (P := fun _ _ => True) (keyed_run o pre)
    ⟨hkept _ _ hget ht, .of_get? (keyed_boot _) hget rfl, Since.refl _ _⟩
    (along_of_forall (fun _ _ => trivial) _ _)
    (fun _ _ _ hk hi hs => hi.atomic (stays_sameEnd ht) (watches_leavesEnd ht) hk hs)
    (fun _ _ _ _ _ hi => hi.boot) fun _ _ _ _ _ => eventGuard_none

/-- A cancelled review, after a restart. -/
theorem ended_stays_restart :
    let pre := [(enqueueOf "a").at 0, Event.tick.at 0,
      (Event.executorSettled "a" "lease-a-1" ⟨.cancelled, "", ""⟩).at 1]
    ∃ r₀ ∈ (lastSaved (run exampleOptions fresh pre).log).records, r₀.terminal = true ∧
      Lasts (SameEnd r₀) r₀.job.jobId (LeavesEnd r₀) (run exampleOptions fresh pre).log
        (run exampleOptions fresh (pre ++ [dies 2, Event.recover.at 20])) := by
  intro pre
  have hex : ∃ r₀ ∈ (lastSaved (run exampleOptions fresh pre).log).records,
      r₀.terminal = true := by decide +kernel
  obtain ⟨r₀, hr, ht⟩ := hex
  exact ⟨r₀, hr, ht, ended_stays hr ht⟩

end PrReviewer.Queue
