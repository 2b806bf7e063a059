import PrReviewer.Queue.Saved

/-!
# Exclusive execution and concurrency bounds

A record is `blocking` when it is starting, running, or publishing without a result. `Bounded` says
that at most one record of a `prKey` is blocking, that at most `maxConcurrent` records are starting or
running, and that a scope with a limit has at most that many blocking records.

All three count the records of a predicate that only a dispatch can make true of a record
(`Slot`): no other change gives a record a slot it did not have, so the counts move up only at a
dispatch, where the code has just compared them with their bound (`Bounded.dispatch`). A restart loads
a snapshot that was bounded when it was saved.
-/

open Js

namespace PrReviewer.Queue

variable {G : Guards} {o : SchedulerOptions} {now : Number} {c c' : Controller}

/-- The scope of a record is a function of its job. -/
def JobScoped (o : SchedulerOptions) : Prop :=
  ∀ r r' : JobRecord, r.job = r'.job → o.scopeKey r = o.scopeKey r'

/-- The bounds on the records of a queue. -/
structure Bounded (o : SchedulerOptions) (rs : List JobRecord) : Prop where
  exclusive : ∀ prKey, rs.countP (fun r => r.prKey = prKey && r.blocking) ≤ 1
  workers : rs.countP JobRecord.working ≤ o.maxConcurrent
  scopes : ∀ key, key ≠ "" → 1 ≤ o.scopeLimit key →
    rs.countP (fun r => o.scopeKey r = key && r.blocking) ≤ o.scopeLimit key

/-- A kind of slot: only a dispatch gives a record one. -/
structure Slot (p : JobRecord → Bool) : Prop where
  queued : ∀ r, r.state = .queued → p r = false
  terminal : ∀ r, r.terminal = true → p r = false
  kept : ∀ r r' : JobRecord, r'.job = r.job → r'.prKey = r.prKey → p r' = true →
    (r'.state = r.state ∧ r'.resultHeadSha = r.resultHeadSha ∨ r.state = .running) → p r = true

theorem slot_blocking (q : JobRecord → Bool)
    (hq : ∀ r r' : JobRecord, r'.job = r.job → r'.prKey = r.prKey → q r' = q r) :
    Slot (fun r => q r && r.blocking) where
  queued r h := by simp [JobRecord.blocking, isActiveState, h]
  terminal r h := by simp [JobRecord.blocking, not_active_of_terminal h]
  kept r r' hj hk h hx := by
    rw [Bool.and_eq_true] at h ⊢
    refine ⟨by rw [← hq r r' hj hk]; exact h.1, ?_⟩
    rcases hx with ⟨hs, hh⟩ | hr
    · have := h.2
      rwa [JobRecord.blocking, JobRecord.durable, hs, hh] at this
    · simp [JobRecord.blocking, JobRecord.durable, isActiveState, hr]

theorem slot_working : Slot JobRecord.working where
  queued r h := by simp [JobRecord.working, h]
  terminal r h := by
    simp only [JobRecord.terminal] at h
    cases hs : r.state <;> simp_all [JobRecord.working, isTerminalState]
  kept r r' hj hk h hx := by
    rcases hx with ⟨hs, -⟩ | hr
    · rwa [JobRecord.working, hs] at h
    · simp [JobRecord.working, hr]

namespace Slot

variable {p : JobRecord → Bool} (hp : Slot p)
include hp

/-- No change of a record gives it a slot. -/
theorem of_change {j : String} {r r' : JobRecord} (h : Change G o now c j r r')
    (hr' : p r' = true) : p r = true := by
  cases h with
  | drop s reason newer owner expires hs ht hn hl hd =>
    rw [hp.terminal _ (terminal_of_isDropState hs)] at hr'
    cases hr'
  | requeue hl ha hs hn hg => rw [hp.queued _ rfl] at hr'; cases hr'
  | retry hx ha hc hn hg => rw [hp.queued _ rfl] at hr'; cases hr'
  | complete next hp' hm hn hx => rw [hp.terminal _ rfl] at hr'; cases hr'
  | result head hs hn hg => exact hp.kept _ _ (by rfl) (by rfl) hr' (.inr hs)
  | stamp newer ha | again hp' | renew owner ho hn hx hg =>
    exact hp.kept _ _ (by rfl) (by rfl) hr' (.inl ⟨rfl, rfl⟩)

/-- Nor does recovery. -/
theorem of_reconcile {n : Nat} {r : JobRecord} (h : p (reconcileRecord now n r) = true) :
    p r = true := by
  unfold reconcileRecord at h
  split at h
  · exact h
  · exact hp.kept _ _ (by rfl) (by rfl) h (.inl ⟨rfl, rfl⟩)
  · rw [hp.queued _ rfl] at h; cases h
  · rw [hp.terminal _ rfl] at h; cases h

/-- **Slots are taken at dispatches only.** -/
theorem count_atomic {b : Nat} (h : Atomic G o now c c') (hc : c.records.count p ≤ b)
    (hs : (lastSaved c.log).records.countP p ≤ b)
    (hd : ∀ r running : JobRecord,
      c.records.get? r.job.jobId = some r → running.job = r.job → running.prKey = r.prKey →
      hasActiveFor c.records r.prKey = false → countActive c.records < o.maxConcurrent →
      scopeFull o c.records r = false → p running = true → c.records.count p + 1 ≤ b) :
    c'.records.count p ≤ b ∧ (lastSaved c'.log).records.countP p ≤ b := by
  cases h with
  | change hj h => exact ⟨(Map.count_set_le hj (hp.of_change h)).trans hc, hs⟩
  | insert hv hj hr hg =>
    obtain ⟨-, -, -, rfl⟩ := newJobRecord_ok hr
    exact ⟨(Map.count_set_of_not (hp.queued _ rfl)).trans hc, hs⟩
  | @dispatch r running hj he ha hsib hcount hf hr hg =>
    obtain ⟨-, -, hrun⟩ := runningRecord_ok hr
    refine ⟨?_, hs⟩
    cases hpr : p running with
    | false => exact (Map.count_set_of_not hpr).trans hc
    | true =>
      have := hd r running hj (by rw [hrun]) (by rw [hrun]) ha hcount hf hpr
      exact Map.count_set_le_succ.trans this
  | publish hj hp' hm hn => exact ⟨hc, hs⟩
  | save hs' =>
    obtain ⟨rfl, -⟩ := parseQueueSnapshot_snapshotValue.mp hs'
    exact ⟨hc, hc⟩
  | adopt hn hok hr hg hrec =>
    refine ⟨?_, hs⟩
    rw [Map.count, values_recordsOf hr, List.countP_map]
    exact (List.countP_mono_left fun r _ h => hp.of_reconcile h).trans hs
  | book h =>
    refine ⟨by rw [h.quiet.records]; exact hc, ?_⟩
    rcases h.quiet.log with hl | ⟨j, token, hl⟩ <;> rw [hl] <;> exact hs

end Slot

/-- A restarted process has the records of the last snapshot, or none. -/
theorem count_boot {p : JobRecord → Bool} {log : List Effect} {b : Nat}
    (h : (lastSaved log).records.countP p ≤ b) : (boot log).records.count p ≤ b := by
  unfold boot
  cases hr : recordsOf (lastSaved log) with
  | none => exact Nat.zero_le b
  | some m =>
    rw [Option.getD_some, Map.count, values_recordsOf hr]
    exact h

/-- A count of slots stays within its bound when each dispatch that takes one finds it below. -/
theorem count_run {p : JobRecord → Bool} (hp : Slot p) {b : Nat} (o : SchedulerOptions)
    (hd : ∀ (c : Controller) (r running : JobRecord), running.job = r.job →
      running.prKey = r.prKey → hasActiveFor c.records r.prKey = false →
      countActive c.records < o.maxConcurrent → scopeFull o c.records r = false →
      p running = true → c.records.count p + 1 ≤ b) (ls : List Label) :
    (run o fresh ls).records.count p ≤ b ∧
      (lastSaved (run o fresh ls).log).records.countP p ≤ b := by
  refine run_invariant'
    (I := fun c => c.records.count p ≤ b ∧ (lastSaved c.log).records.countP p ≤ b)
    ⟨Nat.zero_le b, Nat.zero_le b⟩ (fun now c c' hk hi hs => ?_) (fun c hi => ?_)
  · exact hp.count_atomic hs hi.1 hi.2 fun r running _ => hd c r running
  · exact ⟨count_boot hi.2, by rw [boot_log]; exact hi.2⟩

theorem countP_eq_zero_of_not_hasActiveFor {m : Map String JobRecord} {prKey : String}
    (h : hasActiveFor m prKey = false) :
    m.count (fun r => r.prKey = prKey && r.blocking) = 0 := by
  rw [Map.count, List.countP_eq_zero]
  intro r hr hb
  rw [hasActiveFor, List.any_eq_false] at h
  exact h r hr hb

/-- At most one generation of a `prKey` is blocking. -/
theorem exclusive_run (o : SchedulerOptions) (ls : List Label) (prKey : String) :
    (run o fresh ls).records.count (fun r => r.prKey = prKey && r.blocking) ≤ 1 ∧
      (lastSaved (run o fresh ls).log).records.countP (fun r => r.prKey = prKey && r.blocking) ≤
        1 := by
  refine count_run (slot_blocking (fun r => r.prKey = prKey) fun r r' _ hk => by rw [hk]) o
    (fun c r running _ hk ha _ _ hp => ?_) ls
  rw [Bool.and_eq_true, decide_eq_true_eq] at hp
  rw [← hp.1, hk, countP_eq_zero_of_not_hasActiveFor ha]

/-- A scope with a limit has at most that many blocking records. -/
theorem scopes_run {o : SchedulerOptions} (hs : JobScoped o) (ls : List Label) {key : String}
    (h0 : key ≠ "") (h1 : 1 ≤ o.scopeLimit key) :
    (run o fresh ls).records.count (fun r => o.scopeKey r = key && r.blocking) ≤
        o.scopeLimit key ∧
      (lastSaved (run o fresh ls).log).records.countP (fun r => o.scopeKey r = key && r.blocking) ≤
        o.scopeLimit key := by
  refine count_run (slot_blocking (fun r => o.scopeKey r = key) fun r r' hj _ => by rw [hs r' r hj])
    o (fun c r running hj _ _ _ hf hp => ?_) ls
  rw [Bool.and_eq_true, decide_eq_true_eq] at hp
  have hkey : o.scopeKey r = key := by rw [hs r running hj.symm]; exact hp.1
  simp only [scopeFull, hkey] at hf
  rw [if_neg h0, if_neg (by omega), decide_eq_false_iff_not] at hf
  simp only [activeInScope, Bool.and_comm] at hf ⊢
  omega

/-- **Exclusive execution and concurrency bounds**: they hold of the records in every state that a
run reaches, and of every snapshot that it saves. -/
theorem bounded_of_run (o : SchedulerOptions) (hs : JobScoped o) (ls : List Label) :
    Bounded o (run o fresh ls).records.values ∧
      Bounded o (lastSaved (run o fresh ls).log).records := by
  have workers := count_run slot_working o (fun c r running _ _ _ hc _ _ => hc) ls
  exact
    ⟨⟨fun key => (exclusive_run o ls key).1, workers.1, fun _ h0 h1 => (scopes_run hs ls h0 h1).1⟩,
      ⟨fun key => (exclusive_run o ls key).2, workers.2, fun _ h0 h1 => (scopes_run hs ls h0 h1).2⟩⟩

/-- Two workers, and one slot for each repository. -/
def oneForEachRepository : SchedulerOptions :=
  { exampleOptions with
    maxConcurrent := 2, maxConcurrent_pos := Nat.two_pos
    scopeKeyOf := some (fun r => r.job.repoFullName), scopeLimitOf := some (fun _ => 1) }

/-- Two pull requests of one repository: the second one waits. -/
theorem bounded_of_run_scoped :
    let ls := [(enqueueOf "a").at 0,
      (Event.enqueue (jobValue { exampleJob "b" with prNumber := 2 })).at 0, Event.tick.at 0]
    (run oneForEachRepository fresh ls).records.values.map (·.state) = [.running, .queued] ∧
      Bounded oneForEachRepository (run oneForEachRepository fresh ls).records.values ∧
      Bounded oneForEachRepository (lastSaved (run oneForEachRepository fresh ls).log).records :=
  ⟨by decide +kernel,
    bounded_of_run oneForEachRepository (fun _ _ h => congrArg ReviewJob.repoFullName h) _⟩

end PrReviewer.Queue
