import PrReviewer.Js.Simulation
import PrReviewer.Queue.Compaction
import PrReviewer.Queue.Supersession

/-!
# Compaction is invisible to the scheduler

Two processes, one over a snapshot and one over its compaction, go in step (`Veiled`): the second is
the first without the dropped records. Those have ended, and no decision of the scheduler looks at an
ended record: not the supersession gate, nor the slot counts, nor the choice of candidates
(`Veiled.filter_values` and the queries after it). The loops over all records pass them by, and a
snapshot is accepted with them exactly when it is without. So each method goes in step with itself
(`tick_sim` to `recover_sim`), and every run does (`run_sim`).

One operation can tell the two apart. A heartbeat does not ask whether its record has ended, so it
renews the lease of a dropped record that still has one, and saves (`compaction_visible`).
-/

open Js Relation List

namespace PrReviewer.Queue

variable {o : SchedulerOptions} {now : Number} {store : StoreOutcome}

/-! ## The view without the dropped records -/

/-- The job is none of the dropped ones. -/
def kept (D : List JobRecord) (jobId : String) : Bool := !(D.map (·.job.jobId)).contains jobId

def veilSnapshot (D : List JobRecord) (s : QueueSnapshot) : QueueSnapshot :=
  ⟨s.records.filter (fun r => kept D r.job.jobId)⟩

def veil (D : List JobRecord) : Effect → Effect
  | .save s => .save (veilSnapshot D s)
  | e => e

/-- A drain that has counted `n` more records. -/
def grow (n : Nat) (d : Drain) : Drain := { d with previous := (d.previous.1 + n, d.previous.2) }

/-- The dropped records are in order and have ended. -/
structure Droppable (D : List JobRecord) : Prop where
  record : ∀ r ∈ D, RecordOk r
  ended : ∀ r ∈ D, r.terminal = true
  distinct : (D.map (·.job.jobId)).Nodup

/-- The controller `c` is `f` without the dropped records, in memory and in the history; in `f` they
are as they were. -/
structure Veiled (D : List JobRecord) (f c : Controller) : Prop where
  records : c.records = f.records.filterKeys (kept D)
  controllers : c.controllers = f.controllers
  inFlight : c.publishInFlight = f.publishInFlight
  counter : c.leaseTokenCounter = f.leaseTokenCounter
  closed : c.closed = f.closed
  executions : c.executions = f.executions
  settling : c.settling = f.settling
  publishes : c.publishes = f.publishes
  drains : f.drains = c.drains.map (grow D.length)
  log : c.log = f.log.map (veil D)
  hidden : ∀ r ∈ D, f.records.get? r.job.jobId = some r
  keyed : Keyed f.records
  stored : ∀ r ∈ D, r ∈ (lastSaved f.log).records
  storedOk : SnapshotOk (lastSaved f.log).records

variable {D : List JobRecord} {f c : Controller}

theorem mem_of_not_kept {j : String} (h : kept D j = false) : ∃ r ∈ D, r.job.jobId = j := by
  rw [kept, Bool.not_eq_false', contains_eq_mem, decide_eq_true_eq] at h
  exact mem_map.mp h

theorem not_kept_of_mem {r : JobRecord} (h : r ∈ D) : kept D r.job.jobId = false := by
  rw [kept, Bool.not_eq_false', contains_eq_mem, decide_eq_true_eq]
  exact mem_map.mpr ⟨r, h, rfl⟩

namespace Veiled

theorem get? (h : Veiled D f c) {j : String} (hj : kept D j = true) :
    c.records.get? j = f.records.get? j := by
  rw [h.records, Map.get?_filterKeys, if_pos hj]

/-- A dropped job: its record has ended, and the veiled controller does not know it. -/
theorem get?_dropped (h : Veiled D f c) {j : String} (hj : kept D j = false) :
    c.records.get? j = none ∧ ∃ r ∈ D, f.records.get? j = some r := by
  rw [h.records, Map.get?_filterKeys, hj]
  obtain ⟨r, hr, rfl⟩ := mem_of_not_kept hj
  exact ⟨rfl, r, hr, h.hidden r hr⟩

theorem entries (h : Veiled D f c) :
    c.records.entries = f.records.entries.filter (fun e => kept D e.1) := by
  rw [h.records]
  rfl

/-- An entry that is dropped. -/
theorem dropped (h : Veiled D f c) {e : String × JobRecord} (he : e ∈ f.records.entries)
    (hk : kept D e.1 = false) : e.2 ∈ D := by
  obtain ⟨-, r, hr, hj⟩ := h.get?_dropped hk
  rw [Map.mem_entries_iff.mp he] at hj
  cases hj
  exact hr

theorem values (h : Veiled D f c) :
    c.records.values = f.records.values.filter (fun r => kept D r.job.jobId) := by
  rw [Map.values, h.entries, Map.values, filter_map]
  congr 1
  refine filter_congr fun e he => ?_
  change kept D e.1 = kept D e.2.job.jobId
  rw [h.keyed e.1 e.2 (Map.mem_entries_iff.mp he)]

/-- What is false of every ended record selects the same records. -/
theorem filter_values (h : Veiled D f c) (hD : Droppable D) {q : JobRecord → Bool}
    (hq : ∀ r, r.terminal = true → q r = false) :
    c.records.values.filter q = f.records.values.filter q := by
  rw [h.values, filter_filter]
  refine filter_congr fun r hr => ?_
  cases hk : kept D r.job.jobId with
  | true => rw [Bool.and_true]
  | false =>
    obtain ⟨-, x, hx, hj⟩ := h.get?_dropped hk
    rw [get?_of_mem_values h.keyed hr] at hj
    cases hj
    rw [hq r (hD.ended r hx), Bool.false_and]

theorem any_values (h : Veiled D f c) (hD : Droppable D) {q : JobRecord → Bool}
    (hq : ∀ r, r.terminal = true → q r = false) :
    c.records.values.any q = f.records.values.any q := by
  have hf := h.filter_values hD hq
  have hany : ∀ xs : List JobRecord, xs.any q = !(xs.filter q).isEmpty := fun xs => by
    rw [Bool.eq_iff_iff]
    simp [filter_eq_nil_iff]
  rw [hany, hany, hf]

theorem count (h : Veiled D f c) (hD : Droppable D) {q : JobRecord → Bool}
    (hq : ∀ r, r.terminal = true → q r = false) : c.records.count q = f.records.count q := by
  rw [Map.count, Map.count, countP_eq_length_filter, countP_eq_length_filter,
    h.filter_values hD hq]

/-! ### Queries -/

variable {r : JobRecord}

theorem supersedes_of_terminal {x : JobRecord} (h : x.terminal = true) :
    supersedes r x = false := by
  rw [JobRecord.terminal] at h
  simp [supersedes, h]

theorem findSupersedingSibling (h : Veiled D f c) (hD : Droppable D) (r : JobRecord) :
    findSupersedingSibling c.records r = Queue.findSupersedingSibling f.records r := by
  rw [Queue.findSupersedingSibling, Queue.findSupersedingSibling,
    h.filter_values hD fun _ => supersedes_of_terminal]

theorem mayPublish (h : Veiled D f c) (hD : Droppable D) (r : JobRecord) :
    mayPublish c.records r = Queue.mayPublish f.records r := by
  rw [Queue.mayPublish, Queue.mayPublish, h.findSupersedingSibling hD]

theorem superseder (h : Veiled D f c) (hD : Droppable D) (r : JobRecord) :
    superseder c.records r = Queue.superseder f.records r := by
  rw [Queue.superseder, Queue.superseder, h.findSupersedingSibling hD]

theorem blocking_of_terminal (h : r.terminal = true) : r.blocking = false := by
  simp [JobRecord.blocking, not_active_of_terminal h]

theorem working_of_terminal (h : r.terminal = true) : r.working = false := by
  rw [JobRecord.terminal] at h
  cases hs : r.state <;> simp_all [JobRecord.working, isTerminalState]

theorem not_queued_of_terminal (h : r.terminal = true) : r.state ≠ .queued := by
  rintro hq
  rw [JobRecord.terminal, hq] at h
  cases h

theorem hasActiveFor (h : Veiled D f c) (hD : Droppable D) (prKey : String) :
    hasActiveFor c.records prKey = Queue.hasActiveFor f.records prKey :=
  h.any_values hD fun r hr => by rw [blocking_of_terminal hr, Bool.and_false]

theorem countActive (h : Veiled D f c) (hD : Droppable D) :
    countActive c.records = Queue.countActive f.records :=
  h.count hD fun _ => working_of_terminal

theorem scopeFull (h : Veiled D f c) (hD : Droppable D) (r : JobRecord) :
    scopeFull o c.records r = Queue.scopeFull o f.records r := by
  have hscope : ∀ key, activeInScope o key c.records = activeInScope o key f.records := fun key =>
    h.count hD fun r hr => by rw [blocking_of_terminal hr, Bool.false_and]
  simp only [Queue.scopeFull, hscope]

theorem candidates (h : Veiled D f c) (hD : Droppable D) (now : Number) :
    candidates now c.records = Queue.candidates now f.records := by
  rw [Queue.candidates, Queue.candidates, h.filter_values hD fun r hr => ?_]
  simp [eligible, not_queued_of_terminal hr]

theorem enqueueDisposition (h : Veiled D f c) (hD : Droppable D) (prKey : String) :
    enqueueDisposition prKey c.records = Queue.enqueueDisposition prKey f.records := by
  rw [Queue.enqueueDisposition, Queue.enqueueDisposition,
    h.any_values hD fun r hr => by rw [not_active_of_terminal hr, Bool.and_false],
    h.any_values hD fun r hr => by simp [not_queued_of_terminal hr]]

/-- The dropped records are the entries that the veiled map leaves out. -/
theorem size (h : Veiled D f c) (hD : Droppable D) :
    f.records.size = c.records.size + D.length := by
  let out := f.records.entries.filter (fun e => !kept D e.1)
  have hsplit : f.records.entries.length = c.records.entries.length + out.length := by
    rw [h.entries]
    exact length_eq_length_filter_add _
  have hle : D.length ≤ out.length := by
    rw [← length_map (fun r : JobRecord => (r.job.jobId, r))]
    refine (List.Nodup.subperm (List.Nodup.of_map Prod.fst ?_) fun e he => ?_).length_le
    · rw [List.map_map]
      exact hD.distinct
    · obtain ⟨r, hr, rfl⟩ := mem_map.mp he
      exact mem_filter.mpr ⟨Map.mem_entries_iff.mpr (h.hidden r hr), by
        rw [not_kept_of_mem hr]; rfl⟩
  have hge : out.length ≤ D.length := by
    have hlen : (D.map fun r : JobRecord => (r.job.jobId, r)).length = D.length := length_map _
    rw [← hlen]
    refine (List.Nodup.subperm ((List.Nodup.of_map _ f.records.nodup).filter _) fun e he => ?_).length_le
    obtain ⟨hm, hk⟩ := mem_filter.mp he
    rw [Bool.not_eq_true'] at hk
    refine mem_map.mpr ⟨e.2, h.dropped hm hk, ?_⟩
    rw [h.keyed e.1 e.2 (Map.mem_entries_iff.mp hm)]
  have hf : f.records.size = f.records.entries.length := rfl
  have hc : c.records.size = c.records.entries.length := rfl
  omega

theorem fingerprint (h : Veiled D f c) (hD : Droppable D) :
    drainFingerprint f.records =
      ((drainFingerprint c.records).1 + D.length, (drainFingerprint c.records).2) := by
  refine Prod.ext (h.size hD) ?_
  simp only [drainFingerprint]
  rw [h.entries, filterMap_filter]
  refine filterMap_congr fun e he => ?_
  cases hk : kept D e.1 with
  | true => rfl
  | false =>
    rw [not_active_of_terminal (hD.ended _ (h.dropped he hk))]
    rfl

/-- The snapshots of the two are accepted alike. -/
theorem snapshot (h : Veiled D f c) (hD : Droppable D) :
    BothOk (fun s s' => s = ⟨f.records.values⟩ ∧ SnapshotOk f.records.values ∧
        s' = veilSnapshot D s)
      (parseQueueSnapshot (snapshotValue f.records.values))
      (parseQueueSnapshot (snapshotValue c.records.values)) := by
  by_cases hok : SnapshotOk f.records.values
  · have hc : SnapshotOk c.records.values := by
      rw [h.values]
      exact ⟨fun r hr => hok.record r (mem_filter.mp hr).1,
        hok.distinct.sublist (filter_sublist.map _)⟩
    rw [parseQueueSnapshot_snapshotValue.mpr ⟨rfl, hok⟩,
      parseQueueSnapshot_snapshotValue.mpr ⟨rfl, hc⟩]
    exact ⟨rfl, hok, by rw [h.values]; rfl⟩
  · have hc : ¬SnapshotOk c.records.values := fun hc => hok ⟨fun r hr => ?_, nodup_jobIds h.keyed⟩
    · cases hf : parseQueueSnapshot (snapshotValue f.records.values) with
      | ok s => exact absurd (parseQueueSnapshot_snapshotValue.mp hf).2 hok
      | error e =>
        cases hc' : parseQueueSnapshot (snapshotValue c.records.values) with
        | ok s => exact absurd (parseQueueSnapshot_snapshotValue.mp hc').2 hc
        | error e' => trivial
    · cases hk : kept D r.job.jobId with
      | true => exact hc.record r (by rw [h.values]; exact mem_filter.mpr ⟨hr, hk⟩)
      | false =>
        obtain ⟨-, x, hx, hj⟩ := h.get?_dropped hk
        rw [get?_of_mem_values h.keyed hr] at hj
        cases hj
        exact hD.record r hx

/-! ### Steps -/

theorem set (h : Veiled D f c) {j : String} {r : JobRecord} (hj : kept D j = true)
    (hr : r.job.jobId = j) :
    Veiled D { f with records := f.records.set j r } { c with records := c.records.set j r } :=
  { h with
    records := by
      change c.records.set j r = _
      rw [h.records, Map.filterKeys_set hj]
    hidden := fun x hx => by
      change (f.records.set j r).get? x.job.jobId = some x
      rw [Map.get?_set_ne, h.hidden x hx]
      rintro rfl
      rw [not_kept_of_mem hx] at hj
      cases hj
    keyed := h.keyed.set hr }

/-- A dispatch, up to its effect. -/
theorem dispatched (h : Veiled D f c) {r : JobRecord} (hj : kept D r.job.jobId = true)
    (token : String) :
    Veiled D
      { f with
        records := f.records.set r.job.jobId r
        controllers := f.controllers.set r.job.jobId token
        executions := (r.job.jobId, token) :: f.executions }
      { c with
        records := c.records.set r.job.jobId r
        controllers := c.controllers.set r.job.jobId token
        executions := (r.job.jobId, token) :: c.executions } :=
  { h.set hj rfl with
    controllers := congrArg (·.set r.job.jobId token) h.controllers
    executions := congrArg ((r.job.jobId, token) :: ·) h.executions }

theorem emit (h : Veiled D f c) {e : Effect} (he : ∀ s, e ≠ .save s) :
    Veiled D { f with log := e :: f.log } { c with log := e :: c.log } := by
  have hv : veil D e = e := by
    cases e with
    | save s => exact absurd rfl (he s)
    | _ => rfl
  have hl : lastSaved (e :: f.log) = lastSaved f.log := by
    cases e with
    | save s => exact absurd rfl (he s)
    | _ => rfl
  exact { h with
    log := by rw [map_cons, hv, h.log]
    stored := by rw [hl]; exact h.stored
    storedOk := by rw [hl]; exact h.storedOk }

theorem save (h : Veiled D f c) (hok : SnapshotOk f.records.values) :
    Veiled D { f with log := .save ⟨f.records.values⟩ :: f.log }
      { c with log := .save (veilSnapshot D ⟨f.records.values⟩) :: c.log } :=
  { h with
    log := by rw [map_cons, h.log]; rfl
    stored := fun r hr => Map.mem_values_iff.mpr ⟨_, h.hidden r hr⟩
    storedOk := hok }

end Veiled

/-! ## The methods in step -/

section Methods

variable (hD : Droppable D)
include hD

omit hD in
theorem setRecord_sim (h : Veiled D f c) {j : String} {r : JobRecord} (hj : kept D j = true)
    (hr : r.job.jobId = j) : Sim (Veiled D) f c (setRecord j r) (setRecord j r) :=
  .step (h.set hj hr)

omit hD in
theorem emit_sim (h : Veiled D f c) {e : Effect} (he : ∀ s, e ≠ .save s) :
    Sim (Veiled D) f c (emit e) (emit e) :=
  .step (h.emit he)

theorem save_sim (h : Veiled D f c) : Sim (Veiled D) f c (save store) (save store) := by
  refine .get (.lift (h.snapshot hD) h ?_)
  rintro s s' ⟨rfl, hok, rfl⟩
  cases store with
  | committed => exact .step (h.save hok)
  | committedThenThrew =>
    exact .bind (.step (h.save hok)) fun _ _ _ h' => .throw h'
  | failed => exact .throw h

omit hD in
theorem abortAndForget_sim (h : Veiled D f c) (j : String) :
    Sim (Veiled D) f c (abortAndForget j) (abortAndForget j) := by
  refine .get ?_
  rw [h.controllers]
  cases hc : f.controllers.get? j with
  | none => exact .pure h
  | some token =>
    have h' : Veiled D { f with controllers := f.controllers.delete j }
        { c with controllers := c.controllers.delete j } :=
      { h with controllers := congrArg (·.delete j) h.controllers }
    exact .step (h'.emit nofun)

omit hD in
theorem releaseController_sim (h : Veiled D f c) (j token : String) :
    Sim (Veiled D) f c (releaseController j token) (releaseController j token) := by
  refine .step ?_
  rw [h.controllers]
  split
  · exact { h with controllers := rfl }
  · exact h

/-! ### The scheduling pass -/

theorem expireLeases_sim (h : Veiled D f c) :
    Sim (Veiled D) f c (expireLeases o now) (expireLeases o now) := by
  refine .get ?_
  rw [h.entries]
  refine .forM_filter h (fun e he hk => ?_) fun ⟨j, r⟩ he hj f' c' h' => ?_
  · have ht := hD.ended _ (h.dropped he hk)
    have hl : leaseLapsed e.2 now = false := leaseLapsed_of_terminal ht
    rw [expireLease, if_neg (by rw [hl]; nofun)]
  · have hid := h.keyed j r (Map.mem_entries_iff.mp he)
    refine .ite Iff.rfl (fun _ => .bind (abortAndForget_sim h' j) fun _ f₁ c₁ h₁ => .get ?_)
      fun _ => .pure h'
    have hsame : lapsedRecord o c₁.records r now = lapsedRecord o f₁.records r now := by
      simp only [lapsedRecord, h₁.findSupersedingSibling hD]
    rw [hsame]
    exact .lift_same h₁ fun r' hr' =>
      setRecord_sim h₁ hj (by rw [(lapsedRecord_frame hr').1, hid])

theorem expireDeadlines_sim (h : Veiled D f c) :
    Sim (Veiled D) f c (expireDeadlines now) (expireDeadlines now) := by
  refine .get ?_
  rw [h.entries]
  refine .forM_filter h (fun e he hk => ?_) fun ⟨j, r⟩ he hj f' c' h' => ?_
  · have ht : isTerminalState e.2.state = true := hD.ended _ (h.dropped he hk)
    rw [expireDeadline, if_neg (by rw [ht]; nofun)]
  · have hid := h.keyed j r (Map.mem_entries_iff.mp he)
    refine .ite Iff.rfl (fun _ => .bind (abortAndForget_sim h' j) fun _ f₁ c₁ h₁ => ?_)
      fun _ => .pure h'
    refine .lift_same h₁ fun r' hr' => setRecord_sim h₁ hj ?_
    obtain ⟨-, -, rfl⟩ := withState_ok hr'
    exact hid

omit hD in
theorem firePublish_sim (h : Veiled D f c) (call : PublishCall) (r : JobRecord) :
    Sim (Veiled D) f c (firePublish call r) (firePublish call r) := by
  have h' : Veiled D { f with publishes := call :: f.publishes }
      { c with publishes := call :: c.publishes } :=
    { h with publishes := congrArg (call :: ·) h.publishes }
  exact .step (h'.emit nofun)

omit hD in
theorem fly_sim (h : Veiled D f c) (j : String) :
    Veiled D { f with publishInFlight := j :: f.publishInFlight }
      { c with publishInFlight := j :: c.publishInFlight } :=
  { h with inFlight := congrArg (j :: ·) h.inFlight }

omit hD in
theorem retired_job {r r' : JobRecord} {newer : String} (h : retired r newer now = .ok r') :
    r'.job = r.job := by
  obtain ⟨a, ha, rfl⟩ := Except.of_map_ok h
  obtain ⟨-, -, rfl⟩ := withState_ok ha
  rfl

theorem retryPublishes_sim (h : Veiled D f c) :
    Sim (Veiled D) f c (retryPublishes o now) (retryPublishes o now) := by
  refine .ite Iff.rfl (fun _ => .get ?_) fun _ => .pure h
  rw [h.entries]
  refine .forM_filter h (fun e he hk => ?_) fun e he hj f' c' h' => .get ?_
  · have ht := hD.ended _ (h.dropped he hk)
    have hdue : publishDue e.2 now = false := by
      have hs : e.2.state ≠ .publishing := by
        rintro hs
        rw [JobRecord.terminal, hs] at ht
        cases ht
      simp [publishDue, JobRecord.durable, hs]
    funext s
    change (if (publishDue e.2 now && _) = true then _ else _ : Op Unit) s = _
    rw [if_neg (by simp [hdue])]
  · obtain ⟨j, r⟩ := e
    have hid := h.keyed j r (Map.mem_entries_iff.mp he)
    rw [h'.inFlight, h'.mayPublish hD, h'.findSupersedingSibling hD]
    refine .ite Iff.rfl (fun _ => .ite Iff.rfl (fun _ => ?_) fun _ => ?_) fun _ => .pure h'
    · exact .lift_same h' fun r' hr' => setRecord_sim h' hj (by rw [retired_job hr', hid])
    · exact .assign (firePublish_sim (fly_sim h' j) _ r)

omit hD in
theorem start_sim (h : Veiled D f c) {r : JobRecord} (hj : kept D r.job.jobId = true) :
    Sim (Veiled D) f c (start o r now) (start o r now) := by
  have h₁ : Veiled D { f with leaseTokenCounter := f.leaseTokenCounter + 1 }
      { c with leaseTokenCounter := c.leaseTokenCounter + 1 } :=
    { h with counter := congrArg (· + 1) h.counter }
  refine .assign (.get ?_)
  dsimp only
  rw [h.counter]
  rw [h.counter] at h₁
  refine .lift_same h₁ fun running hr => .step ?_
  obtain ⟨-, -, hrun⟩ := runningRecord_ok hr
  have hid : running.job.jobId = r.job.jobId := by rw [hrun]
  have hd := h₁.dispatched (hid.symm ▸ hj) (leaseToken r.job.jobId (f.leaseTokenCounter + 1))
  rw [hid] at hd
  exact hd.emit (e := .start running) nofun

theorem dispatchLoop_sim (h : Veiled D f c) {prKeys : List String} {cs : List JobRecord}
    (hcs : ∀ r ∈ cs, kept D r.job.jobId = true) :
    Sim (Veiled D) f c (dispatchLoop o now prKeys cs) (dispatchLoop o now prKeys cs) := by
  induction cs generalizing f c prKeys with
  | nil => exact .pure h
  | cons r rest ih =>
    have hrest := fun x hx => hcs x (mem_cons_of_mem _ hx)
    refine .get ?_
    rw [h.hasActiveFor hD, h.findSupersedingSibling hD, h.countActive hD, h.scopeFull hD]
    refine .ite Iff.rfl (fun _ => ih h hrest) fun _ => .ite Iff.rfl (fun _ => .pure h) fun _ =>
      .ite Iff.rfl (fun _ => ih h hrest) fun _ => ?_
    exact .bind (start_sim h (hcs r mem_cons_self)) fun _ _ _ h' => ih h' hrest

theorem dispatchEligible_sim (h : Veiled D f c) :
    Sim (Veiled D) f c (dispatchEligible o now) (dispatchEligible o now) := by
  refine .get ?_
  rw [← h.candidates hD]
  refine dispatchLoop_sim hD h fun r hr => ?_
  have hperm : (candidates now c.records).Perm (c.records.values.filter (eligible now)) :=
    perm_insertionSort _ _
  have hmem := (mem_filter.mp (hperm.mem_iff.mp hr)).1
  rw [h.values] at hmem
  exact (mem_filter.mp hmem).2

theorem tick_sim (h : Veiled D f c) :
    Sim (Veiled D) f c (tick o store now) (tick o store now) := by
  refine .bind (expireLeases_sim hD h) fun _ f₁ c₁ h₁ => ?_
  refine .bind (expireDeadlines_sim hD h₁) fun _ f₂ c₂ h₂ => ?_
  refine .bind (retryPublishes_sim hD h₂) fun _ f₃ c₃ h₃ => .get ?_
  exact .ite (by rw [h₃.closed]) (fun _ => save_sim hD h₃) fun _ =>
    .bind (dispatchEligible_sim hD h₃) fun _ _ _ h₄ => save_sim hD h₄

/-! ### Intake -/

omit hD in
theorem supersedeExisting_sim (h : Veiled D f c) {prKey jobId : String} {r : JobRecord}
    (hj : kept D r.job.jobId = true) :
    Sim (Veiled D) f c (supersedeExisting prKey jobId now r)
      (supersedeExisting prKey jobId now r) := by
  refine .ite Iff.rfl (fun _ => .ite Iff.rfl (fun _ => ?_) fun _ => .ite Iff.rfl (fun _ => ?_)
    fun _ => .pure h) fun _ => .pure h
  · refine .lift_same h fun r' hr' => setRecord_sim h hj ?_
    obtain ⟨-, -, rfl⟩ := withState_ok hr'
    rfl
  · refine .bind (setRecord_sim h hj rfl) fun _ f₁ c₁ h₁ => .get ?_
    rw [h₁.controllers]
    cases hc : f₁.controllers.get? r.job.jobId with
    | none => exact .pure h₁
    | some token => exact emit_sim h₁ nofun

/-- The job of the value, if it is one, is not a dropped one. -/
def NotDropped (D : List JobRecord) (job : Value) : Prop :=
  ∀ validated, validateReviewJob job = some validated → kept D validated.jobId = true

theorem enqueue_sim (h : Veiled D f c) {job : Value} (hjob : NotDropped D job) :
    Sim (Veiled D) f c (enqueue o store now job) (enqueue o store now job) := by
  refine .ite Iff.rfl (fun _ => .throw h) fun _ => .get (.ite (by rw [h.closed])
    (fun _ => .throw h) fun _ => ?_)
  cases hv : validateReviewJob job with
  | none => exact .throw h
  | some validated =>
    have hk := hjob validated hv
    refine .ite ?_ (fun _ => .pure h) fun _ => .bind ?_ fun _ f₁ c₁ h₁ => ?_
    · rw [Map.has, Map.has, h.get? hk]
    · rw [h.values]
      refine .forM_filter h (fun r hr hr' => ?_) fun r _ hr f₁ c₁ h₁ => supersedeExisting_sim h₁ hr
      have ht := hD.ended r (by
        obtain ⟨-, x, hx, hj⟩ := h.get?_dropped hr'
        rw [get?_of_mem_values h.keyed hr] at hj
        cases hj
        exact hx)
      have ha : ¬isActiveState r.state = true := by simp [not_active_of_terminal ht]
      simp only [supersedeExisting, if_neg (Veiled.not_queued_of_terminal ht), if_neg ha, ite_self]
    · refine .lift_same h₁ fun r hr => .bind (setRecord_sim h₁ hk ?_) fun _ f₂ c₂ h₂ =>
        .bind (save_sim hD h₂) fun _ f₃ c₃ h₃ => ?_
      · obtain ⟨-, -, -, rfl⟩ := newJobRecord_ok hr
        rfl
      · rw [h.enqueueDisposition hD]
        exact .pure h₃

/-! ### Settlement -/

theorem settleCompleted_sim (h : Veiled D f c) {j token : String} {r : JobRecord}
    {outcome : ExecutionOutcome} (hj : kept D j = true) (hr : r.job.jobId = j) :
    Sim (Veiled D) f c (settleCompleted o store now j token r outcome)
      (settleCompleted o store now j token r outcome) := by
  refine .lift_same h fun r₁ hr₁ => ?_
  obtain ⟨-, -, rfl⟩ := withState_ok hr₁
  refine .bind (setRecord_sim h hj hr) fun _ f₁ c₁ h₁ => .get ?_
  rw [h₁.mayPublish hD, h₁.superseder hD, h₁.inFlight]
  refine .ite Iff.rfl (fun _ => ?_) fun _ => .ite Iff.rfl (fun _ => ?_) fun _ =>
    .ite Iff.rfl (fun _ => .pure h₁) fun _ => ?_
  · exact .lift_same h₁ fun r₂ hr₂ => setRecord_sim h₁ hj (by rw [retired_job hr₂]; exact hr)
  · refine .lift_same h₁ fun r₂ hr₂ => setRecord_sim h₁ hj ?_
    obtain ⟨-, -, rfl⟩ := withState_ok hr₂
    exact hr
  · exact .assign (.bind (save_sim hD (fly_sim h₁ j)) fun _ _ _ h₂ => firePublish_sim h₂ _ _)

theorem settle_sim (h : Veiled D f c) (j token : String) (outcome : ExecutionOutcome) :
    Sim (Veiled D) f c (settle o store now j token outcome)
      (settle o store now j token outcome) := by
  refine .get ?_
  cases hk : kept D j with
  | false =>
    -- a settlement of a dropped job is revoked, whether or not its record is there
    obtain ⟨hc, r, hr, hf⟩ := h.get?_dropped hk
    have ht : isTerminalState r.state = true := hD.ended r hr
    rw [hc, hf]
    dsimp only
    rw [if_pos (by rw [ht]; rfl)]
    exact releaseController_sim h j token
  | true =>
    rw [h.get? hk]
    cases hf : f.records.get? j with
    | none => exact releaseController_sim h j token
    | some r =>
      have hid := h.keyed j r hf
      refine .ite Iff.rfl (fun _ => releaseController_sim h j token) fun _ => ?_
      cases outcome.status with
      | completed =>
        exact .bind (settleCompleted_sim hD h hk hid) fun _ f₁ c₁ h₁ =>
          .step { h₁ with settling := congrArg ((j, token) :: ·) h₁.settling }
      | failed =>
        have hsame : failedRecord o c.records r outcome now =
            failedRecord o f.records r outcome now := by
          simp only [failedRecord, h.findSupersedingSibling hD, h.superseder hD]
        dsimp only
        rw [hsame]
        refine .lift_same h fun r' hr' => .bind (setRecord_sim h hk ?_) fun _ f₁ c₁ h₁ =>
          .bind (releaseController_sim h₁ j token) fun _ f₂ c₂ h₂ => save_sim hD h₂
        have hch : Change Guards.none o now f j r r' := failedRecord_change hr' trivial
        rw [hch.sameJob.job, hid]
      | cancelled =>
        refine .lift_same h fun r' hr' => .bind (setRecord_sim h hk ?_) fun _ f₁ c₁ h₁ =>
          .bind (releaseController_sim h₁ j token) fun _ f₂ c₂ h₂ => save_sim hD h₂
        have hch : Change Guards.none o now f j r r' := cancelledRecord_change hr' trivial
        rw [hch.sameJob.job, hid]

theorem executorSettled_sim (h : Veiled D f c) (j token : String) (outcome : ExecutionOutcome) :
    Sim (Veiled D) f c (executorSettled o store now j token outcome)
      (executorSettled o store now j token outcome) := by
  refine .get ?_
  rw [h.executions]
  refine .ite Iff.rfl (fun _ => .assign (settle_sim hD ?_ j token outcome)) fun _ => .pure h
  exact { h with executions := congrArg (·.erase (j, token)) h.executions }

theorem settleDone_sim (h : Veiled D f c) (j token : String) :
    Sim (Veiled D) f c (settleDone store j token) (settleDone store j token) := by
  refine .get ?_
  rw [h.settling]
  refine .ite Iff.rfl (fun _ => .assign (.bind (releaseController_sim ?_ j token)
    fun _ f₁ c₁ h₁ => save_sim hD h₁)) fun _ => .pure h
  exact { h with settling := congrArg (·.erase (j, token)) h.settling }

theorem publishSettled_sim (h : Veiled D f c) (call : PublishCall) (published : Bool) :
    Sim (Veiled D) f c (publishSettled o store call published)
      (publishSettled o store call published) := by
  refine .get ?_
  rw [h.publishes]
  refine .ite Iff.rfl (fun _ => ?_) fun _ => .pure h
  have h₁ : Veiled D
      { f with
        publishes := f.publishes.erase call
        publishInFlight := f.publishInFlight.filter (fun j => j ≠ call.jobId) }
      { c with
        publishes := c.publishes.erase call
        publishInFlight := c.publishInFlight.filter (fun j => j ≠ call.jobId) } :=
    { h with
      publishes := congrArg (·.erase call) h.publishes
      inFlight := congrArg (·.filter (fun j => j ≠ call.jobId)) h.inFlight }
  refine .assign ?_
  cases hk : kept D call.jobId with
  | false =>
    obtain ⟨hc, r, hr, hf⟩ := h.get?_dropped hk
    have ht := hD.ended r hr
    have hs : r.state ≠ .publishing := by
      rintro hs
      rw [JobRecord.terminal, hs] at ht
      cases ht
    rw [hc, hf]
    dsimp only
    rw [if_pos (by simp [hs])]
    exact .pure h₁
  | true =>
    rw [h.get? hk]
    cases hf : f.records.get? call.jobId with
    | none => exact .pure h₁
    | some r =>
      have hid := h.keyed _ r hf
      refine .ite Iff.rfl (fun _ => .pure h₁) fun hx => ?_
      simp only [Bool.or_eq_true, decide_eq_true_eq, not_or, not_not] at hx
      have hsame : publishedRecord o c.records r published call.now =
          publishedRecord o f.records r published call.now := by
        simp only [publishedRecord, h.mayPublish hD, h.superseder hD]
      rw [hsame]
      refine .lift_same h₁ fun r' hr' => .bind (setRecord_sim h₁ hk ?_) fun _ f₂ c₂ h₂ =>
        save_sim hD h₂
      have hch : Change Guards.none o call.now f call.jobId r r' :=
        publishedRecord_change hx.1 hr' fun _ => trivial
      rw [hch.sameJob.job, hid]

/-! ### Leases held from outside -/

/-- The heartbeat is not for the live lease of a dropped record. -/
def NoLease (D : List JobRecord) (now : Number) (j owner : String) : Prop :=
  ∀ r ∈ D, r.job.jobId = j → leaseIsValid r owner now = false

theorem heartbeat_sim (h : Veiled D f c) {j owner : String} (hl : NoLease D now j owner) :
    Sim (Veiled D) f c (heartbeat o store now j owner) (heartbeat o store now j owner) := by
  refine .get ?_
  cases hk : kept D j with
  | false =>
    obtain ⟨hc, r, hr, hf⟩ := h.get?_dropped hk
    rw [hc, hf]
    dsimp only
    rw [if_pos (by rw [hl r hr (h.keyed j r hf)]; rfl)]
    exact .pure h
  | true =>
    rw [h.get? hk]
    cases hf : f.records.get? j with
    | none => exact .pure h
    | some r =>
      refine .ite Iff.rfl (fun _ => .pure h) fun _ => .lift_same h fun r' hr' =>
        .bind (setRecord_sim h hk ?_) fun _ f₁ c₁ h₁ =>
        .bind (save_sim hD h₁) fun _ f₂ c₂ h₂ => .pure h₂
      obtain ⟨-, -, rfl⟩ := withRenewedLease_ok hr'
      exact h.keyed j r hf

theorem recoverable_eq (h : Veiled D f c) (j : String) : recoverable c j = recoverable f j := by
  unfold recoverable
  cases hk : kept D j with
  | false =>
    obtain ⟨hc, r, hr, hf⟩ := h.get?_dropped hk
    rw [hc, hf]
    simp [Veiled.working_of_terminal (hD.ended r hr)]
  | true => rw [h.get? hk, h.controllers]

/-- A recoverable record is no dropped one. -/
theorem kept_of_recoverable (h : Veiled D f c) {j : String} {r : JobRecord}
    (hr : recoverable f j = some r) : kept D j = true := by
  by_contra hk
  rw [Bool.not_eq_true] at hk
  obtain ⟨-, x, hx, hf⟩ := h.get?_dropped hk
  obtain ⟨hj, hw, -⟩ := recoverable_eq_some hr
  rw [hf] at hj
  cases hj
  rw [Veiled.working_of_terminal (hD.ended r hx)] at hw
  cases hw

theorem resolveRecovered_sim (h : Veiled D f c) (j : String) (outcome : ExecutionOutcome) :
    Sim (Veiled D) f c (resolveRecovered o store now j outcome)
      (resolveRecovered o store now j outcome) := by
  refine .get ?_
  rw [recoverable_eq hD h]
  cases recoverable f j with
  | none => exact .pure h
  | some r =>
    exact .ite Iff.rfl (fun _ => .pure h) fun _ =>
      .bind (settle_sim hD h j _ outcome) fun _ _ _ h₁ => .pure h₁

theorem adoptRecovered_sim (h : Veiled D f c) (j owner : String) :
    Sim (Veiled D) f c (adoptRecovered o store now j owner)
      (adoptRecovered o store now j owner) := by
  refine .ite Iff.rfl (fun _ => .pure h) fun _ => .get ?_
  rw [recoverable_eq hD h]
  cases hr : recoverable f j with
  | none => exact .pure h
  | some r =>
    refine .lift_same h fun r' hr' => .bind (setRecord_sim h (kept_of_recoverable hD h hr) ?_)
      fun _ f₁ c₁ h₁ => .bind (save_sim hD h₁) fun _ f₂ c₂ h₂ => .pure h₂
    obtain ⟨-, -, rfl⟩ := withRenewedLease_ok hr'
    exact h.keyed j r (recoverable_eq_some hr).1

/-! ### Shutdown -/

theorem cancelRemaining_sim (h : Veiled D f c) :
    Sim (Veiled D) f c (cancelRemaining store now) (cancelRemaining store now) := by
  refine .get ?_
  rw [h.controllers, h.entries]
  refine .bind (.forM h fun e _ f₁ c₁ h₁ => emit_sim h₁ nofun) fun _ f₁ c₁ h₁ => .assign ?_
  have h₂ : Veiled D { f₁ with controllers := Map.empty } { c₁ with controllers := Map.empty } :=
    { h₁ with controllers := rfl }
  refine .bind (.forM_filter h₂ (fun e he hk => ?_) fun ⟨j, r⟩ he hj f₃ c₃ h₃ => ?_)
    fun _ f₄ c₄ h₄ => save_sim hD h₄
  · have ha : isActiveState e.2.state = false :=
      not_active_of_terminal (hD.ended _ (h.dropped he hk))
    rw [shutdownRecord, if_neg (by rw [ha]; nofun)]
  · refine .ite Iff.rfl (fun _ => .lift_same h₃ fun r' hr' => setRecord_sim h₃ hj ?_)
      fun _ => .pure h₃
    obtain ⟨-, -, rfl⟩ := withState_ok hr'
    exact h.keyed j r (Map.mem_entries_iff.mp he)

theorem drainPass_sim (h : Veiled D f c) (d : Drain) :
    Sim (Veiled D) f c (drainPass o store now (grow D.length d)) (drainPass o store now d) := by
  refine .get (.ite ?_ (fun _ => .bind (tick_sim hD h) fun _ f₁ c₁ h₁ => .step ?_)
    fun _ => cancelRemaining_sim hD h)
  · rw [h.countActive hD]
    exact Iff.rfl
  · exact { h₁ with
      drains := by rw [map_cons, h₁.drains] }

theorem shutdown_sim (h : Veiled D f c) (drainMs : Number) :
    Sim (Veiled D) f c (shutdown o store now drainMs) (shutdown o store now drainMs) := by
  have h₁ : Veiled D { f with closed := true } { c with closed := true } :=
    { h with closed := rfl }
  refine .assign (.get ?_)
  rw [h.fingerprint hD]
  exact drainPass_sim hD h₁ {
    start := now
    budget := if drainMs.isFinite ∧ 0 < drainMs then drainMs else 0
    pass := 0
    previous := drainFingerprint c.records }

omit hD in
theorem grow_injective (n : Nat) : Function.Injective (grow n) := by
  rintro ⟨s, b, p, v⟩ ⟨s', b', p', v'⟩ h
  simp only [grow, Drain.mk.injEq, Prod.mk.injEq, Nat.add_right_cancel_iff] at h
  obtain ⟨rfl, rfl, rfl, h1, h2⟩ := h
  rw [Prod.ext h1 h2]

theorem drainStep_sim (h : Veiled D f c) (d : Drain) :
    Sim (Veiled D) f c (drainStep o store now (grow D.length d)) (drainStep o store now d) := by
  have hinj := grow_injective D.length
  refine .get (.ite ?_ (fun _ => .assign (.ite ?_ (fun _ => ?_) fun _ => ?_)) fun _ => .pure h)
  · rw [h.drains, mem_map_of_injective hinj]
  · rw [h.fingerprint hD]
    simp only [grow, Prod.mk.injEq, Nat.add_right_cancel_iff]
    exact Prod.ext_iff.symm
  all_goals
    have h₁ : Veiled D { f with drains := f.drains.erase (grow D.length d) }
        { c with drains := c.drains.erase d } :=
      { h with drains := by rw [h.drains, map_erase hinj] }
  · exact cancelRemaining_sim hD h₁
  · rw [h.fingerprint hD]
    exact drainPass_sim hD h₁ { d with pass := d.pass + 1, previous := drainFingerprint c.records }

/-! ### Recovery -/

omit hD in
theorem lastSaved_veil (log : List Effect) :
    lastSaved (log.map (veil D)) = veilSnapshot D (lastSaved log) := by
  induction log with
  | nil => rfl
  | cons e log ih =>
    cases e with
    | save s => rfl
    | _ => exact ih

omit hD in
/-- A saved record of a dropped job is the dropped one. -/
theorem stored_dropped (h : Veiled D f c) {r : JobRecord} (hr : r ∈ (lastSaved f.log).records)
    (hk : kept D r.job.jobId = false) : r ∈ D := by
  obtain ⟨x, hx, hid⟩ := mem_of_not_kept hk
  rw [← eq_of_jobId h.storedOk (h.stored x hx) hr hid]
  exact hx

theorem movedJobIds_veil (h : Veiled D f c) {n : Nat} {v : RecoveryVerdict} (hv : v ≠ .keep) :
    movedJobIds now n v (veilSnapshot D (lastSaved f.log)).records =
      movedJobIds now n v (lastSaved f.log).records := by
  rw [movedJobIds, movedJobIds, veilSnapshot, filter_filter]
  congr 2
  refine filter_congr fun r hr => ?_
  cases hk : kept D r.job.jobId with
  | true => rw [Bool.and_true]
  | false =>
    have ha := not_active_of_terminal (hD.ended r (stored_dropped h hr hk))
    have hkeep : recoveryVerdict now n r = .keep := by rw [recoveryVerdict, ha]; rfl
    rw [hkeep, Bool.and_false, decide_eq_false (Ne.symm hv)]

omit hD in
theorem nodup_reconciled {rs : List JobRecord} {n : Nat} (h : (rs.map (·.job.jobId)).Nodup) :
    ((rs.map (reconcileRecord now n)).map (·.job.jobId)).Nodup := by
  rw [List.map_map, map_congr_left fun r _ => ?_]
  · exact h
  · exact congrArg ReviewJob.jobId (reconcileRecord_frame now n r).1

omit hD in
/-- The records of a veiled snapshot. -/
theorem recordsOf_veil {s : QueueSnapshot} {m m' : Map String JobRecord} (hm : recordsOf s = some m)
    (hm' : recordsOf (veilSnapshot D s) = some m') : m' = m.filterKeys (kept D) := by
  refine Map.ext_entries ?_
  change m'.entries = m.entries.filter (fun e => kept D e.1)
  rw [Map.ofEntries?_entries hm', Map.ofEntries?_entries hm, filter_map]
  rfl

theorem recover_sim (h : Veiled D f c) :
    Sim (Veiled D) f c (recover o store now) (recover o store now) := by
  have hlast : lastSaved c.log = veilSnapshot D (lastSaved f.log) := by
    rw [h.log, lastSaved_veil]
  have hok := h.storedOk
  have hok' : SnapshotOk (veilSnapshot D (lastSaved f.log)).records :=
    ⟨fun r hr => hok.record r (mem_filter.mp hr).1,
      hok.distinct.sublist (filter_sublist.map _)⟩
  refine .get ?_
  rw [hlast]
  by_cases hn : now.isFinite = true
  · have hrec : ∀ s : QueueSnapshot, SnapshotOk s.records →
        reconcileRecoveredSnapshot s now o.maxAttempts = .ok {
          snapshot := ⟨s.records.map (reconcileRecord now o.maxAttempts)⟩
          requeued := movedJobIds now o.maxAttempts .requeue s.records
          failed := movedJobIds now o.maxAttempts .fail s.records } := fun s hs => by
      rw [reconcileRecoveredSnapshot, hn, parseQueueSnapshot_snapshotValue.mpr ⟨rfl, hs⟩]
      rfl
    rw [hrec _ hok, hrec _ hok', movedJobIds_veil hD h (v := .requeue) (by decide),
      movedJobIds_veil hD h (v := .fail) (by decide)]
    obtain ⟨m, hm⟩ := recordsOf_of_nodup
      (s := ⟨(lastSaved f.log).records.map (reconcileRecord now o.maxAttempts)⟩)
      (nodup_reconciled hok.distinct)
    obtain ⟨m', hm'⟩ := recordsOf_of_nodup
      (s := ⟨(veilSnapshot D (lastSaved f.log)).records.map (reconcileRecord now o.maxAttempts)⟩)
      (nodup_reconciled hok'.distinct)
    rw [Action.lift_ok_bind, Action.lift_ok_bind, hm, hm']
    have hveil : m' = m.filterKeys (kept D) := by
      refine recordsOf_veil hm (Eq.trans ?_ hm')
      rw [veilSnapshot, filter_map, veilSnapshot]
      congr 3
      refine filter_congr fun r _ => ?_
      change kept D (reconcileRecord now o.maxAttempts r).job.jobId = kept D r.job.jobId
      rw [(reconcileRecord_frame now o.maxAttempts r).1]
    have h₁ : Veiled D { f with records := m, controllers := Map.empty }
        { c with records := m', controllers := Map.empty } :=
      { h with
        records := hveil
        controllers := rfl
        hidden := fun r hr => by
          refine (get?_recordsOf hm).mpr ⟨mem_map.mpr ⟨r, h.stored r hr, ?_⟩, rfl⟩
          have ha := not_active_of_terminal (hD.ended r hr)
          have hkeep : recoveryVerdict now o.maxAttempts r = .keep := by
            rw [recoveryVerdict, ha]
            rfl
          rw [reconcileRecord, hkeep]
        keyed := Keyed.recordsOf hm }
    exact .assign (.bind (save_sim hD h₁) fun _ _ _ h₂ => .pure h₂)
  · have hrec : ∀ s : QueueSnapshot, ∃ e, reconcileRecoveredSnapshot s now o.maxAttempts = .error e :=
      fun s => ⟨_, by rw [reconcileRecoveredSnapshot, if_pos (by simpa using hn)]⟩
    obtain ⟨e, he⟩ := hrec (lastSaved f.log)
    obtain ⟨e', he'⟩ := hrec (veilSnapshot D (lastSaved f.log))
    rw [he, he']
    exact h

/-! ## Events and runs -/

/-- The same event for the controller that counts `n` more records. -/
def growEvent (n : Nat) : Event → Event
  | .drainStep d => .drainStep (grow n d)
  | e => e

def growLabel (n : Nat) (l : Label) : Label := { l with event := growEvent n l.event }

/-- The event neither enqueues a dropped job nor renews the live lease of one. -/
def Admitted (D : List JobRecord) (now : Number) : Event → Prop
  | .enqueue job => NotDropped D job
  | .heartbeat j owner => NoLease D now j owner
  | _ => True

theorem exec_sim (h : Veiled D f c) {e : Event} (he : Admitted D now e) :
    Sim (Veiled D) f c (exec o store now (growEvent D.length e)) (exec o store now e) := by
  cases e with
  | enqueue job => exact .bind (enqueue_sim hD h he) fun _ _ _ h' => .pure h'
  | tick => exact tick_sim hD h
  | heartbeat j owner => exact .bind (heartbeat_sim hD h he) fun _ _ _ h' => .pure h'
  | resolveRecovered j outcome =>
    exact .bind (resolveRecovered_sim hD h j outcome) fun _ _ _ h' => .pure h'
  | adoptRecovered j owner => exact .bind (adoptRecovered_sim hD h j owner) fun _ _ _ h' => .pure h'
  | executorSettled j token outcome => exact executorSettled_sim hD h j token outcome
  | settleDone j token => exact settleDone_sim hD h j token
  | publishSettled call published => exact publishSettled_sim hD h call published
  | shutdown drainMs => exact shutdown_sim hD h drainMs
  | drainStep d => exact drainStep_sim hD h d
  | recover => exact .bind (recover_sim hD h) fun _ _ _ h' => .pure h'

theorem run_sim (h : Veiled D f c) {ls : List Label} (hlive : ∀ l ∈ ls, l.crash = none)
    (hls : ∀ l ∈ ls, Admitted D l.now l.event) :
    Veiled D (run o f (ls.map (growLabel D.length))) (run o c ls) := by
  induction ls generalizing f c with
  | nil => exact h
  | cons l ls ih =>
    have hc := hlive l mem_cons_self
    refine ih ?_ (fun x hx => hlive x (mem_cons_of_mem _ hx))
      fun x hx => hls x (mem_cons_of_mem _ hx)
    have hsim : Veiled D ((exec o l.store l.now (growEvent D.length l.event)).final f)
        ((exec o l.store l.now l.event).final c) :=
      (exec_sim hD h (hls l mem_cons_self)).final
    simpa only [step, growLabel, hc] using hsim

end Methods

/-! ## Compaction -/

/-- The calls of the executor and of the publisher in a history. -/
def calls (log : List Effect) : List Effect :=
  log.filter fun
    | .start _ | .publish _ => true
    | .abort _ _ | .save _ => false

theorem calls_veil (log : List Effect) : calls (log.map (veil D)) = calls log := by
  induction log with
  | nil => rfl
  | cons e log ih =>
    cases e with
    | start r => exact congrArg (Effect.start r :: ·) ih
    | publish r => exact congrArg (Effect.publish r :: ·) ih
    | abort | save => exact ih

theorem droppable_droppedRecords {options : CompactionOptions} {records : List JobRecord}
    (h : SnapshotOk records) : Droppable (droppedRecords options records) :=
  ⟨fun r hr => h.record r (dropped_ended hr).1, fun _ hr => (dropped_ended hr).2.1,
    nodup_droppedRecords h⟩

/-- The processes over a snapshot and over its compaction. -/
theorem veiled_boot {s : QueueSnapshot} (hs : SnapshotOk s.records) (hD : ∀ r ∈ D, r ∈ s.records) :
    Veiled D (boot [.save s]) (boot [.save (veilSnapshot D s)]) := by
  obtain ⟨m, hm⟩ := recordsOf_of_nodup hs.distinct
  obtain ⟨m', hm'⟩ := recordsOf_of_nodup (s := veilSnapshot D s)
    (hs.distinct.sublist (filter_sublist.map _))
  have hf : (boot [.save s]).records = m := by
    change (recordsOf s).getD Map.empty = m
    rw [hm]
    rfl
  have hc : (boot [.save (veilSnapshot D s)]).records = m' := by
    change (recordsOf (veilSnapshot D s)).getD Map.empty = m'
    rw [hm']
    rfl
  exact {
    records := by rw [hf, hc]; exact recordsOf_veil hm hm'
    controllers := rfl
    inFlight := rfl
    counter := rfl
    closed := rfl
    executions := rfl
    settling := rfl
    publishes := rfl
    drains := rfl
    log := rfl
    hidden := fun r hr => by rw [hf]; exact (get?_recordsOf hm).mpr ⟨hD r hr, rfl⟩
    keyed := by rw [hf]; exact Keyed.recordsOf hm
    stored := hD
    storedOk := hs }

/-- **Compaction is invisible.** For an accepted compaction of `s` that drops the records `D`:

- over every sequence of operations and callbacks that neither enqueues a dropped job nor renews the
  live lease of a dropped record, a process over the compacted snapshot makes the calls that a process
  over `s` makes, and has the same records of the jobs that were kept. (A drain loop over `s` counts
  `D.length` more records in its fingerprint.)
- the dropped records have ended, and so have all records of their pull requests; the rest keeps its
  order;
- the cap drops in the order of `(updatedAtMs, jobId)`, oldest first, and leaves at most the configured
  number of ended records, or those that live records protect. -/
theorem compaction_invisible (o : SchedulerOptions) {numberName : Number → String}
    {s : QueueSnapshot} {options : CompactionOptions} {out : Compacted}
    (h : compactQueueSnapshot numberName s options = .ok out) :
    let D := droppedRecords options s.records
    out.dropped.Perm (D.map (·.job.jobId)) ∧
    (∀ ls : List Label, (∀ l ∈ ls, l.crash = none) → (∀ l ∈ ls, Admitted D l.now l.event) →
      calls (run o (boot [.save out.snapshot]) ls).log =
          calls (run o (boot [.save s]) (ls.map (growLabel D.length))).log ∧
        ∀ jobId, jobId ∉ out.dropped →
          (run o (boot [.save out.snapshot]) ls).records.get? jobId =
            (run o (boot [.save s]) (ls.map (growLabel D.length))).records.get? jobId) ∧
    (∀ r ∈ D, r ∈ s.records ∧ r.terminal = true ∧
      ∀ x ∈ s.records, x.prKey = r.prKey → x.terminal = true) ∧
    out.snapshot.records = s.records.filter (fun r => r.job.jobId ∉ out.dropped) ∧
    (capped options s.records).Pairwise (fun a b => dropOrder a b = true) ∧
    (∀ x ∈ capped options s.records, ∀ y ∈ droppable s.records, y.job.jobId ∉ out.dropped →
      dropOrder x y = true) ∧
    terminalCount out.snapshot.records ≤
      max (Number.toNat options.maxTerminalRecords) (protectedRecords s.records).length := by
  intro D
  obtain ⟨hok, hrest, hperm⟩ := compactQueueSnapshot_ok h
  have hmem : ∀ jobId, jobId ∈ out.dropped ↔ kept D jobId = false := fun jobId => by
    rw [kept, Bool.not_eq_false', contains_eq_mem, decide_eq_true_eq]
    exact hperm.mem_iff
  have hveil : out.snapshot = veilSnapshot D s := congrArg QueueSnapshot.mk hrest
  refine ⟨hperm, fun ls hlive hls => ?_, fun r hr => dropped_ended hr, ?_, capped_sorted hok,
    fun x hx y hy hyd => capped_oldest hok hx hy ?_, ?_⟩
  · have hrun := run_sim (droppable_droppedRecords hok)
      (veiled_boot (D := D) hok fun r hr => (dropped_ended hr).1) hlive hls (o := o)
    rw [hveil]
    refine ⟨by rw [hrun.log, calls_veil], fun jobId hj => hrun.get? ?_⟩
    rw [hmem, Bool.not_eq_false] at hj
    exact hj
  · rw [hrest]
    refine filter_congr fun r _ => ?_
    change kept D r.job.jobId = _
    by_cases hr : r.job.jobId ∈ out.dropped
    · rw [(hmem _).mp hr, decide_eq_false (not_not.mpr hr)]
    · rw [hmem, Bool.not_eq_false] at hr
      rw [hr, decide_eq_true]
      rw [hmem, hr]
      nofun
  · exact fun hm => hyd (hperm.mem_iff.mpr hm)
  · rw [hrest]
    exact terminalCount_le hok

/-- A completed generation of pull request 1 that was last updated at 0. -/
def exampleEnded (leaseOwner : String) (leaseExpiresAtMs : Number) : JobRecord where
  job := exampleJob "x"
  prKey := prIdentityKey (exampleJob "x")
  state := .completed
  enqueuedAtMs := 0
  readyAtMs := 0
  attempt := 1
  nextRetryAtMs := 0
  leaseOwner
  leaseExpiresAtMs
  cancelRequested := false
  resultHeadSha := "abc"
  failureReason := ""
  supersededByJobId := ""
  updatedAtMs := 0

/-- The new generation `k` is dispatched alike with and without the history of `x`. -/
theorem compaction_invisible_dispatch :
    let s : QueueSnapshot := ⟨[exampleEnded "" 0]⟩
    let ls := [(enqueueOf "k").at 0, Event.tick.at 0]
    calls (run exampleOptions (boot [.save ⟨[]⟩]) ls).log =
        calls (run exampleOptions (boot [.save s]) (ls.map (growLabel 1))).log ∧
      (calls (run exampleOptions (boot [.save ⟨[]⟩]) ls).log).length = 1 := by
  intro s ls
  have hout : compactQueueSnapshot (fun _ => "") s ⟨100, 10, 5⟩ = .ok ⟨⟨[]⟩, ["x"]⟩ := by
    decide +kernel
  have hD : droppedRecords ⟨100, 10, 5⟩ s.records = [exampleEnded "" 0] := by decide +kernel
  have hjob : validateReviewJob (jobValue (exampleJob "k")) = some (exampleJob "k") := by
    decide +kernel
  have hinv := (compaction_invisible exampleOptions hout).2.1 ls (by decide +kernel) (by
    rw [hD]
    intro l hl
    simp only [ls, mem_cons, not_mem_nil, or_false] at hl
    rcases hl with rfl | rfl
    · intro validated hv
      rw [hjob] at hv
      cases hv
      decide +kernel
    · exact trivial)
  rw [hD] at hinv
  exact ⟨hinv.1, by decide +kernel⟩

/-- **A visible compaction**: a heartbeat renews the lease that the dropped record `x` still had, and
saves the record of `k`, which the failed enqueue had left in memory only. So a recovery finds `k` over
the full snapshot, and does not over the compacted one. -/
theorem compaction_visible :
    let s : QueueSnapshot := ⟨[exampleEnded "w" 1000]⟩
    let ls : List Label := [⟨enqueueOf "k", 0, .failed, none⟩, (Event.heartbeat "x" "w").at 1,
      Event.recover.at 2, Event.tick.at 3]
    compactQueueSnapshot (fun _ => "") s ⟨100, 10, 5⟩ = .ok ⟨⟨[]⟩, ["x"]⟩ ∧
      ((run exampleOptions (boot [.save s]) ls).records.get? "k").map (·.state) = some .running ∧
      (calls (run exampleOptions (boot [.save s]) ls).log).length = 1 ∧
      (run exampleOptions (boot [.save ⟨[]⟩]) ls).records.get? "k" = none ∧
      calls (run exampleOptions (boot [.save ⟨[]⟩]) ls).log = [] := by
  decide +kernel

end PrReviewer.Queue
