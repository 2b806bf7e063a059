import PrReviewer.Queue.Saved

/-!
# Bounded attempts

`attempt` counts the dispatches of a job. In memory the counter is never behind the history, and it
never passes `maxAttempts`. But the counter moves when `executor.start` is called and reaches the
store with the commit at the end of the pass, so in the store it is behind by the starts that no commit
has followed yet (`unsaved`). A process that dies then, or a recovery that then goes back to the store,
forgets those attempts (`starts_unbounded`). While neither happens (`Covered`), no job is started more
than `maxAttempts` times (`starts_le`).
-/

open Js

namespace PrReviewer.Queue

variable {G : Guards} {o : SchedulerOptions} {now : Number} {c c' : Controller}

/-! ## The counter -/

/-- The attempts of a job, 0 where it has no record. -/
def attempts (records : Map String JobRecord) (jobId : String) : Nat :=
  ((records.get? jobId).map (·.attempt)).getD 0

variable {m : Map String JobRecord} {j : String} {r : JobRecord}

theorem attempts_of_get?
    (h : m.get? j = some r) : attempts m j = r.attempt := by
  rw [attempts, h]; rfl

theorem attempts_set (m : Map String JobRecord) (j : String) (r : JobRecord) (i : String) :
    attempts (m.set j r) i = if i = j then r.attempt else attempts m i := by
  unfold attempts
  rw [Map.get?_set]
  split <;> rfl

/-- The limit on one record: what waits for a dispatch has an attempt left. -/
def Limited (o : SchedulerOptions) (r : JobRecord) : Prop :=
  r.attempt ≤ o.maxAttempts ∧ (r.state = .queued → r.attempt < o.maxAttempts)

theorem Limited.change {j : String} {r r' : JobRecord} (h : Limited o r)
    (hc : Change G o now c j r r') : Limited o r' := by
  cases hc with
  | stamp | renew => exact h
  | drop s reason newer owner expires hs =>
    refine ⟨h.1, fun hq => ?_⟩
    obtain rfl : s = .queued := hq
    cases hs
  | requeue hl ha | retry hx ha => exact ⟨h.1, fun _ => ha⟩
  | result | complete => exact ⟨h.1, fun hq => by cases hq⟩
  | again hp => exact ⟨h.1, fun hq => h.2 hq⟩

theorem Limited.recovery {r' : JobRecord} (h : Limited o r)
    (hr : Recovery now o.maxAttempts r r') : Limited o r' := by
  cases hr with
  | keep => exact h
  | keepPublishing hd => exact ⟨h.1, fun hq => h.2 hq⟩
  | requeue hb ha => exact ⟨h.1, fun _ => ha⟩
  | fail => exact ⟨h.1, fun hq => by cases hq⟩

/-- The records of a map are within the limit. -/
def Within (o : SchedulerOptions) (records : Map String JobRecord) : Prop :=
  ∀ j r, records.get? j = some r → Limited o r

theorem Within.set (h : Within o m)
    (hr : Limited o r) : Within o (m.set j r) := by
  intro i x hx
  rw [Map.get?_set] at hx
  split at hx
  · cases hx; exact hr
  · exact h i x hx

theorem Within.le (h : Within o m) (j : String) :
    attempts m j ≤ o.maxAttempts := by
  unfold attempts
  cases hj : m.get? j with
  | none => exact Nat.zero_le _
  | some r => exact (h j r hj).1

/-! ## The invariant -/

/-- A recovery goes back to a store that no start is missing from. -/
def Guards.recoversAll : Guards :=
  { Guards.none with recover := fun log => unsaved log = [] }

/-- Memory has counted every start, and the store all but the unsaved ones. -/
structure Counted (o : SchedulerOptions) (c : Controller) : Prop where
  memory : ∀ j, starts j (dispatches c.log) ≤ attempts c.records j
  store : ∀ j, starts j (dispatches c.log) ≤ attempts (saved c.log) j + starts j (unsaved c.log)
  within : Within o c.records
  withinStore : Within o (saved c.log)

theorem Counted.atomic (h : Counted o c) (hk : Keyed c.records)
    (hs : Atomic Guards.recoversAll o now c c') : Counted o c' := by
  cases hs with
  | @change j r r' hj hc =>
    refine ⟨fun i => ?_, h.store, h.within.set ((h.within j r hj).change hc), h.withinStore⟩
    have := h.memory i
    rw [attempts_set]
    split
    · next he => rwa [he, attempts_of_get? hj, ← hc.sameJob.attempt, ← he] at this
    · exact this
  | @insert job r hv hj hr hg =>
    obtain ⟨-, -, -, rfl⟩ := newJobRecord_ok hr
    refine ⟨fun i => ?_, h.store, h.within.set ⟨Nat.zero_le _, fun _ => o.maxAttempts_pos⟩,
      h.withinStore⟩
    have := h.memory i
    rw [attempts_set]
    split
    · next he =>
      rw [he, attempts, hj] at this
      rwa [he]
    · exact this
  | @dispatch r running hj he ha hsib hc hf hr hg =>
    obtain ⟨-, hq, rfl⟩ := runningRecord_ok hr
    have hlt : r.attempt < o.maxAttempts := (h.within _ _ hj).2 hq
    refine ⟨fun i => ?_, fun i => ?_, h.within.set ⟨hlt, fun hq => by cases hq⟩, h.withinStore⟩
    · have := h.memory i
      change starts i (_ :: dispatches c.log) ≤ attempts (c.records.set r.job.jobId _) i
      rw [starts_cons, attempts_set]
      by_cases hi : i = r.job.jobId
      · subst hi
        rw [attempts_of_get? hj] at this
        simpa using this
      · rw [if_neg hi, if_neg (Ne.symm hi)]
        exact this
    · have := h.store i
      change starts i (_ :: dispatches c.log) ≤
        attempts (saved c.log) i + starts i (_ :: unsaved c.log)
      rw [starts_cons, starts_cons]
      omega
  | publish => exact ⟨h.memory, h.store, h.within, h.withinStore⟩
  | save hp =>
    refine ⟨h.memory, fun j => ?_, h.within, fun j r hj => ?_⟩
    · change starts j (dispatches c.log) ≤ attempts (saved _) j + 0
      rw [attempts, get?_saved_save hk hp]
      exact h.memory j
    · rw [get?_saved_save hk hp] at hj
      exact h.within j r hj
  | adopt hn hok hr hg hrec =>
    have hget := get?_adopt hok hr
    refine ⟨fun j => ?_, h.store, fun j r hj => ?_, h.withinStore⟩
    · have := h.store j
      have hun : unsaved c.log = [] := hrec
      rw [hun, starts_nil, Nat.add_zero] at this
      refine this.trans (le_of_eq ?_)
      unfold attempts
      rw [hget]
      cases (saved c.log).get? j with
      | none => rfl
      | some x => exact (reconcileRecord_frame _ _ x).2.2.1.symm
    · rw [hget, Option.map_eq_some_iff] at hj
      obtain ⟨x, hx, rfl⟩ := hj
      exact (h.withinStore j x hx).recovery (reconcileRecord_recovery _ _ _)
  | book hb =>
    have hq := hb.quiet
    refine ⟨?_, ?_, ?_, ?_⟩
    · rw [hq.dispatches.1, hq.records]; exact h.memory
    · rw [hq.dispatches.1, hq.dispatches.2, hq.saved]; exact h.store
    · rw [hq.records]; exact h.within
    · rw [hq.saved]; exact h.withinStore

theorem Counted.boot (h : Counted o c) (hl : unsaved c.log = []) :
    Counted o (boot c.log) := by
  refine ⟨fun j => ?_, h.store, h.withinStore, h.withinStore⟩
  have := h.store j
  rwa [hl, starts_nil, Nat.add_zero] at this

/-! ## Runs -/

/-- Neither a death of the process nor a recovery goes back to a store that misses a start. -/
def Covered (o : SchedulerOptions) (c : Controller) (l : Label) : Prop :=
  (∀ log ∈ diesAt o c l, unsaved log = []) ∧ (l.event = .recover → unsaved c.log = [])

instance (o : SchedulerOptions) (c : Controller) (l : Label) : Decidable (Covered o c l) := by
  unfold Covered
  have : Decidable (l.event = .recover) := by
    cases l.event <;> first | exact .isTrue rfl | exact .isFalse nofun
  infer_instance

theorem eventGuard_covered {l : Label} (h : Covered o c l) :
    EventGuard Guards.recoversAll o now c l.event := by
  have hr := h.2
  cases he : l.event with
  | tick | shutdown | drainStep => exact tickGuard_free (fun _ => trivial) fun _ _ => trivial
  | settleDone => exact trivial
  | heartbeat | adoptRecovered => exact fun _ _ _ => trivial
  | resolveRecovered | publishSettled => exact fun _ _ => trivial
  | enqueue | executorSettled => exact fun _ _ _ _ => trivial
  | recover => exact ⟨fun _ _ _ => trivial, hr he⟩

/-- **Bounded attempts.** While no death of the process and no recovery goes back to a store that
misses a start, a job is started at most `maxAttempts` times. -/
theorem starts_le {ls : List Label} (h : Along o (Covered o) fresh ls) (jobId : String) :
    starts jobId (dispatches (run o fresh ls).log) ≤ o.maxAttempts := by
  have hc : Counted o (run o fresh ls) :=
    run_invariant (G := fun _ => Guards.recoversAll) (keyed_boot []) ⟨fun _ => Nat.le_refl 0, fun _ => Nat.le_refl 0, by rintro j r ⟨⟩,
      by rintro j r ⟨⟩⟩ h (fun _ _ _ hk hi hs => Counted.atomic hi hk hs)
      (fun _ _ _ hl hd hi => hi.boot (hl.1 _ hd)) fun _ _ _ _ hl => eventGuard_covered hl
  exact (hc.memory jobId).trans (hc.within.le jobId)

/-- The process dies with all starts saved: the second and last attempt of `a` is the next one's. -/
theorem starts_le_restart :
    let ls := [(enqueueOf "a").at 0, Event.tick.at 0, dies 5, Event.recover.at 20, Event.tick.at 20]
    starts "a" (dispatches (run exampleOptions fresh ls).log) = 2 ∧
      starts "a" (dispatches (run exampleOptions fresh ls).log) ≤ exampleOptions.maxAttempts :=
  ⟨by decide +kernel, starts_le (by decide +kernel) "a"⟩

/-- One attempt for each job. -/
def oneAttempt : SchedulerOptions :=
  { exampleOptions with maxAttempts := 1, maxAttempts_pos := Nat.one_pos }

/-- **Attempts are not bounded**: each process calls `executor.start` and dies before the commit that
ends the pass. -/
theorem starts_unbounded :
    let dying : Label := ⟨.tick, 0, .committed, some 1⟩
    let ls := [(enqueueOf "a").at 0, dying, Event.recover.at 0, dying, Event.recover.at 0, dying]
    starts "a" (dispatches (run oneAttempt fresh ls).log) = 3 := by
  decide +kernel

end PrReviewer.Queue
