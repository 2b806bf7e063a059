import PrReviewer.Js.Except
import PrReviewer.Queue.Atomic

/-!
# Every stretch is made of atomic steps

`exec_moves`: from a state whose records stand under their own ids, each event goes by `Atomic` steps,
given what the guards assume of it (`EventGuard`). The module has one theorem for each method of the
controller, which its callers use in place of its code.

A loop over the entries of the record map runs over a copy, while its body changes the map. `Pending`
is what keeps the copy honest: the entries still to come are in the map as they were.
-/

open Js Relation List

namespace PrReviewer.Queue

variable {G : Guards} {o : SchedulerOptions} {now : Number} {store : StoreOutcome} {c : Controller}

/-! ## What the record functions return -/

variable {j prKey jobId token owner : String} {r r' : JobRecord} {s : JobLifecycleState}
  {outcome : ExecutionOutcome} {published : Bool} {l : Label} {ls : List Label}

theorem retired_change {newer : String} (h : retired r newer now = .ok r') :
    Change G o now c j r r' := by
  obtain ⟨a, ha, rfl⟩ := Except.of_map_ok h
  have ht := not_terminal_of_withState ha
  obtain ⟨hn, -, rfl⟩ := withState_ok ha
  exact .drop .superseded _ _ "" 0 rfl ht hn (.inr ⟨rfl, rfl⟩) (.inl rfl)

/-- A record that ends as failed or cancelled, without its lease. -/
theorem drop_change {reason : String}
    (h : withState r s now = .ok r') (hs : isDropState s = true)
    (hd : r.durable = false ∨ ∃ status, G.settle c.executions status r) :
    Change G o now c j r { r'.unleased with failureReason := reason } := by
  have ht := not_terminal_of_withState h
  obtain ⟨hn, -, rfl⟩ := withState_ok h
  exact .drop s reason _ "" 0 hs ht hn (.inr ⟨rfl, rfl⟩) (.inr hd)

theorem not_durable_of_blocking (h : r.blocking = true) : r.durable = false := by
  simp only [JobRecord.blocking, Bool.and_eq_true, Bool.not_eq_true'] at h
  exact h.2

theorem blocking_of_leaseLapsed (h : leaseLapsed r now = true) :
    r.blocking = true := by
  simp only [leaseLapsed, Bool.and_eq_true] at h
  exact h.1

theorem lapsedRecord_change (hl : leaseLapsed r now = true)
    (h : lapsedRecord o c.records r now = .ok r')
    (hg : r.attempt < o.maxAttempts → findSupersedingSibling c.records r = none → G.requeue r) :
    Change G o now c j r r' := by
  unfold lapsedRecord at h
  split at h
  · next ha =>
    split at h
    · exact retired_change h
    · next hs =>
      obtain ⟨a, ha', rfl⟩ := Except.of_map_ok h
      obtain ⟨hn, -, rfl⟩ := withState_ok ha'
      exact .requeue hl ha hs hn (hg ha hs)
  · obtain ⟨a, ha, rfl⟩ := Except.of_map_ok h
    exact drop_change ha rfl (.inl (not_durable_of_blocking (blocking_of_leaseLapsed hl)))

theorem isActiveState_of_queued
    (h : canTransition s .queued = true) : isActiveState s = true := by
  cases s <;> simp_all [canTransition, transitions, isActiveState]

theorem failedRecord_change
    (h : failedRecord o c.records r outcome now = .ok r')
    (hg : G.settle c.executions .failed r) : Change G o now c j r r' := by
  unfold failedRecord at h
  split at h
  · exact retired_change h
  · next hx =>
    simp only [Bool.or_eq_true, not_or, Bool.not_eq_true] at hx
    split at h
    · obtain ⟨a, ha, rfl⟩ := Except.of_map_ok h
      exact drop_change ha rfl (.inr ⟨_, hg⟩)
    · next ha =>
      obtain ⟨a, ha', rfl⟩ := Except.of_map_ok h
      obtain ⟨hn, hc, rfl⟩ := withState_ok ha'
      exact .retry (isActiveState_of_queued hc) (Nat.lt_of_not_le ha) hx.1 hn hg

theorem cancelledRecord_change
    (h : cancelledRecord r now = .ok r') (hg : G.settle c.executions .cancelled r) :
    Change G o now c j r r' := by
  obtain ⟨a, ha, rfl⟩ := Except.of_map_ok h
  exact drop_change ha rfl (.inr ⟨_, hg⟩)

theorem publishedRecord_change
    (hp : r.state = .publishing) (h : publishedRecord o c.records r published now = .ok r')
    (hg : published = false → G.again) : Change G o now c j r r' := by
  unfold publishedRecord at h
  split at h
  · exact retired_change h
  · next hm =>
    rw [Bool.not_eq_true, Bool.not_eq_false'] at hm
    split at h
    · obtain ⟨a, ha, rfl⟩ := Except.of_map_ok h
      obtain ⟨hn, -, rfl⟩ := withState_ok ha
      exact .complete 0 hp hm hn (.inr rfl)
    · next hpub =>
      cases h
      exact .again hp (hg (by simpa using hpub))

/-! ## Elementary actions -/

/-- A set of one record that is a change. -/
theorem setRecord_moves {Q : PUnit → Controller → Prop}
    (hj : c.records.get? j = some r) (h : Change G o now c j r r')
    (hQ : Q ⟨⟩ { c with records := c.records.set j r' }) :
    Moves (Atomic G o now) c (setRecord j r') Q :=
  .step (.change hj h) hQ

theorem save_moves {Q : PUnit → Controller → Prop}
    (hQ : ∀ s, parseQueueSnapshot (snapshotValue c.records.values) = .ok s →
      Q ⟨⟩ { c with log := .save s :: c.log }) :
    Moves (Atomic G o now) c (save store) Q := by
  refine .get (.lift fun s hs => ?_)
  cases store with
  | committed => exact .step (.save hs) (hQ s hs)
  | committedThenThrew => exact .assign (.save hs) .throw
  | failed => exact .throw

/-- `save` as the last statement: nothing is asked of the state after it. -/
theorem save_moves' : Moves (Atomic G o now) c (save store) (fun _ _ => True) :=
  save_moves fun _ _ => trivial

/-- An action on the bookkeeping keeps the records and the pending executions. -/
def KeepsRecords (c : Controller) : PUnit → Controller → Prop :=
  fun _ c' => c'.records = c.records ∧ c'.executions = c.executions

theorem abortAndForget_moves (jobId : String) :
    Moves (Atomic G o now) c (abortAndForget jobId) (KeepsRecords c) := by
  refine .get ?_
  cases ht : c.controllers.get? jobId with
  | none => exact .pure ⟨rfl, rfl⟩
  | some token => exact .step (.book (.forget ht)) ⟨rfl, rfl⟩

theorem releaseController_moves (jobId token : String) :
    Moves (Atomic G o now) c (releaseController jobId token) (KeepsRecords c) := by
  by_cases h : c.controllers.get? jobId = some token
  · refine .step ?_ ?_
    · rw [if_pos h]; exact .book (.release h)
    · rw [if_pos h]; exact ⟨rfl, rfl⟩
  · exact .keep (if_neg h) ⟨rfl, rfl⟩

/-! ## Loops over a copy of the entries -/

/-- The entries still to come are in the map as they were copied. -/
structure Pending (entries : List (String × JobRecord)) (records : Map String JobRecord) :
    Prop where
  nodup : (entries.map Prod.fst).Nodup
  current : ∀ e ∈ entries, records.get? e.1 = some e.2

theorem Pending.entries (m : Map String JobRecord) : Pending m.entries m :=
  ⟨m.nodup, fun _ he => Map.mem_entries_iff.mp he⟩

variable {m : Map String JobRecord} {e : String × JobRecord} {rest : List (String × JobRecord)}

theorem Pending.head (h : Pending (e :: rest) m) : m.get? e.1 = some e.2 :=
  h.current e mem_cons_self

theorem Pending.tail (h : Pending (e :: rest) m) : Pending rest m :=
  ⟨(nodup_cons.mp h.nodup).2, fun x hx => h.current x (mem_cons_of_mem _ hx)⟩

/-- Setting the key of the entry at hand leaves the later ones as they were. -/
theorem Pending.set (h : Pending (e :: rest) m) (r : JobRecord) : Pending rest (m.set e.1 r) := by
  refine ⟨h.tail.nodup, fun x hx => ?_⟩
  rw [Map.get?_set_ne, h.tail.current x hx]
  rintro he
  exact (nodup_cons.mp h.nodup).1 (he ▸ mem_map.mpr ⟨x, hx, rfl⟩)

/-! ## The scheduling pass -/

/-- What the lease pass needs to meet the guard on requeues: an invariant `J` of the pass under which
every record it puts back into the queue satisfies the guard. -/
structure LeasePass (G : Guards) (o : SchedulerOptions) (now : Number)
    (J : Map String JobRecord → Prop) : Prop where
  guard : ∀ m j r, J m → m.get? j = some r → leaseLapsed r now = true →
    r.attempt < o.maxAttempts → findSupersedingSibling m r = none → G.requeue r
  keeps : ∀ m j r r', J m → m.get? j = some r → leaseLapsed r now = true →
    lapsedRecord o m r now = .ok r' → J (m.set j r')

theorem expireLeases_moves {J : Map String JobRecord → Prop} (hJ : LeasePass G o now J)
    (hc : J c.records) :
    Moves (Atomic G o now) c (expireLeases o now) (fun _ c' => J c'.records) := by
  refine .get ?_
  refine (Moves.forM (I := fun rest c => Pending rest c.records ∧ J c.records)
    ⟨Pending.entries _, hc⟩ ?_).mono fun _ _ h => h.2
  rintro ⟨j, r⟩ rest c ⟨hp, hc⟩
  refine .ite (fun hl => ?_) fun _ => .pure ⟨hp.tail, hc⟩
  refine .bind (abortAndForget_moves j) fun _ c' hk => .get (.lift fun r' hr' => ?_)
  have hj : c'.records.get? j = some r := by rw [hk.1]; exact hp.head
  rw [hk.1] at hr'
  refine setRecord_moves hj (lapsedRecord_change hl (by rw [hk.1]; exact hr') fun ha hs => ?_) ?_
  · rw [hk.1] at hs
    exact hJ.guard _ j r hc hp.head hl ha hs
  · rw [hk.1]
    exact ⟨hp.set r', hJ.keeps _ j r r' hc hp.head hl hr'⟩

/-- What the dispatch pass needs to meet the guard on dispatches: an invariant `J` of the whole tick
under which every eligible record satisfies the guard. -/
structure DispatchPass (G : Guards) (o : SchedulerOptions) (now : Number)
    (J : Controller → Prop) : Prop where
  guard : ∀ c r, J c → c.records.get? r.job.jobId = some r → eligible now r = true →
    G.dispatch c r
  keeps : ∀ c c', J c → Atomic G o now c c' → J c'

theorem expireDeadlines_moves :
    Moves (Atomic G o now) c (expireDeadlines now) (fun _ _ => True) := by
  refine .get ?_
  refine (Moves.forM (I := fun rest c => Pending rest c.records) (Pending.entries _) ?_).mono
    fun _ _ _ => trivial
  rintro ⟨j, r⟩ rest c hp
  refine .ite (fun hx => ?_) fun _ => .pure hp.tail
  refine .bind (abortAndForget_moves j) fun _ c' hk => .lift fun r' hr' => ?_
  simp only [Bool.and_eq_true, Bool.not_eq_true'] at hx
  refine setRecord_moves (by rw [hk.1]; exact hp.head) (drop_change hr' rfl (.inl hx.1.2)) ?_
  rw [hk.1]
  exact hp.set _

theorem state_of_durable (h : r.durable = true) :
    r.state = .publishing ∧ r.resultHeadSha ≠ "" := by
  simpa [JobRecord.durable] using h

theorem retryPublishes_moves :
    Moves (Atomic G o now) c (retryPublishes o now) (fun _ _ => True) := by
  refine .ite (fun _ => ?_) fun _ => .pure trivial
  refine .get ?_
  refine (Moves.forM (I := fun rest c => Pending rest c.records) (Pending.entries _) ?_).mono
    fun _ _ _ => trivial
  rintro ⟨j, r⟩ rest c hp
  refine .get (.ite (fun hx => ?_) fun _ => .pure hp.tail)
  simp only [publishDue, Bool.and_eq_true, Bool.not_eq_true', contains_eq_mem,
    decide_eq_false_iff_not] at hx
  refine .ite (fun hm => ?_) fun hm => ?_
  · exact .lift fun r' hr' => setRecord_moves hp.head (retired_change hr') (hp.set r')
  · rw [Bool.not_eq_true, Bool.not_eq_false'] at hm
    refine .assign (.book (.fly hx.2)) (.step (.publish hp.head ?_ hm rfl) hp.tail)
    exact (state_of_durable hx.1.1).1

/-- A dispatch is one step. -/
theorem start_eq {running : JobRecord}
    (hr : runningRecord o r (leaseToken r.job.jobId (c.leaseTokenCounter + 1)) now = .ok running) :
    start o r now c =
      .ok ⟨⟩ (c.dispatched running (leaseToken r.job.jobId (c.leaseTokenCounter + 1))) := by
  obtain ⟨-, -, hrun⟩ := runningRecord_ok hr
  have hid : running.job.jobId = r.job.jobId := by rw [hrun]
  change (Action.lift (runningRecord o r (leaseToken r.job.jobId (c.leaseTokenCounter + 1)) now) >>=
    _ : Op Unit) _ = _
  rw [hr, Controller.dispatched, hid]
  rfl

theorem start_moves (hj : c.records.get? r.job.jobId = some r)
    (he : eligible now r = true) (ha : hasActiveFor c.records r.prKey = false)
    (hs : findSupersedingSibling c.records r = none) (hc : countActive c.records < o.maxConcurrent)
    (hf : scopeFull o c.records r = false) (hg : G.dispatch c r) :
    Moves (Atomic G o now) c (start o r now)
      (fun _ c' => ∃ running, c'.records = c.records.set r.job.jobId running) := by
  cases hr : runningRecord o r (leaseToken r.job.jobId (c.leaseTokenCounter + 1)) now with
  | error e =>
    refine .assign (.book .bump) (.get ?_)
    exact .lift fun a ha => by rw [hr] at ha; cases ha
  | ok running =>
    obtain ⟨-, -, hrun⟩ := runningRecord_ok hr
    have hid : running.job.jobId = r.job.jobId := by rw [hrun]
    rw [Moves, start_eq hr]
    exact ⟨.single (.dispatch hj he ha hs hc hf hr hg), running, by rw [← hid]; rfl⟩

/-- The candidates still to come are in the map as they were listed. -/
structure Waiting (cs : List JobRecord) (records : Map String JobRecord) : Prop where
  nodup : (cs.map (·.job.jobId)).Nodup
  current : ∀ r ∈ cs, records.get? r.job.jobId = some r

theorem Waiting.tail {r : JobRecord} {rest : List JobRecord} (h : Waiting (r :: rest) m) :
    Waiting rest m :=
  ⟨(nodup_cons.mp h.nodup).2, fun x hx => h.current x (mem_cons_of_mem _ hx)⟩

theorem Waiting.ne {x : JobRecord} {rest : List JobRecord} (h : Waiting (r :: rest) m)
    (hx : x ∈ rest) : x.job.jobId ≠ r.job.jobId := fun he =>
  (nodup_cons.mp h.nodup).1 (mem_map.mpr ⟨x, hx, he⟩)

theorem dispatchLoop_moves {J : Controller → Prop} (hJ : DispatchPass G o now J) (hc : J c)
    {cs : List JobRecord} {prKeys : List String} (hw : Waiting cs c.records)
    (he : ∀ r ∈ cs, eligible now r = true) :
    Moves (Atomic G o now) c (dispatchLoop o now prKeys cs) (fun _ _ => True) := by
  induction cs generalizing c prKeys with
  | nil => exact .pure trivial
  | cons r rest ih =>
    have htail := hw.tail
    have het : ∀ x ∈ rest, eligible now x = true := fun x hx => he x (mem_cons_of_mem _ hx)
    refine .get (.ite (fun _ => ih hc htail het) fun h1 => .ite (fun _ => .pure trivial) fun h2 =>
      .ite (fun _ => ih hc htail het) fun h3 => ?_)
    simp only [Bool.or_eq_true, not_or, Bool.not_eq_true, Option.isSome_eq_false_iff,
      Option.isNone_iff_eq_none] at h1
    have hr := hw.current r mem_cons_self
    have her := he r mem_cons_self
    refine .bind ((start_moves hr her h1.1.2 h1.2 (Nat.lt_of_not_le h2) (by simpa using h3)
      (hJ.guard c r hc hr her)).inv hJ.keeps hc) fun _ c' hc' => ih hc'.2 ?_ het
    obtain ⟨⟨running, hrec⟩, -⟩ := hc'
    refine ⟨htail.nodup, fun x hx => ?_⟩
    rw [hrec, Map.get?_set_ne (hw.ne hx), htail.current x hx]

theorem nodup_jobIds {m : Map String JobRecord} (h : Keyed m) :
    (m.values.map (·.job.jobId)).Nodup := by
  have he : m.values.map (·.job.jobId) = m.entries.map Prod.fst := by
    rw [Map.values, List.map_map]
    exact map_congr_left fun e he => h e.1 e.2 (Map.mem_entries_iff.mp he)
  rw [he]
  exact m.nodup

theorem get?_of_mem_values {m : Map String JobRecord} (h : Keyed m) {r : JobRecord}
    (hr : r ∈ m.values) : m.get? r.job.jobId = some r := by
  obtain ⟨k, hk⟩ := Map.mem_values_iff.mp hr
  rw [h k r hk]
  exact hk

theorem dispatchEligible_moves {J : Controller → Prop} (hJ : DispatchPass G o now J) (hc : J c)
    (hk : Keyed c.records) :
    Moves (Atomic G o now) c (dispatchEligible o now) (fun _ _ => True) := by
  have hperm : (candidates now c.records).Perm (c.records.values.filter (eligible now)) :=
    perm_insertionSort _ _
  refine .get (dispatchLoop_moves hJ hc ⟨?_, fun r hr => ?_⟩ fun r hr => ?_)
  · refine (hperm.map _).nodup_iff.mpr ?_
    exact (nodup_jobIds hk).sublist (filter_sublist.map _)
  · exact get?_of_mem_values hk (mem_of_mem_filter (hperm.mem_iff.mp hr))
  · exact (mem_filter.mp (hperm.mem_iff.mp hr)).2

/-- The tick at `c` meets the guards on requeues and on dispatches. -/
def TickGuard (G : Guards) (o : SchedulerOptions) (now : Number) (c : Controller) : Prop :=
  (∃ J, LeasePass G o now J ∧ J c.records) ∧ ∃ J, DispatchPass G o now J ∧ J c

theorem tick_moves (hg : TickGuard G o now c) (hk : Keyed c.records) :
    Moves (Atomic G o now) c (tick o store now) (fun _ _ => True) := by
  obtain ⟨⟨J, hJ, hc⟩, L, hL, hd⟩ := hg
  have keep : ∀ s s', Keyed s.records ∧ L s → Atomic G o now s s' → Keyed s'.records ∧ L s' :=
    fun _ _ h hs => ⟨hs.keyed h.1, hL.keeps _ _ h.2 hs⟩
  refine .bind ((expireLeases_moves hJ hc).inv keep ⟨hk, hd⟩) fun _ c₁ h₁ => ?_
  refine .bind (expireDeadlines_moves.inv keep h₁.2) fun _ c₂ h₂ => ?_
  refine .bind (retryPublishes_moves.inv keep h₂.2) fun _ c₃ h₃ => .get ?_
  exact .ite (fun _ => save_moves') fun _ =>
    .bind (dispatchEligible_moves hL h₃.2.2 h₃.2.1) fun _ _ _ => save_moves'

/-! ## Intake -/

theorem validJob_of_validateReviewJob {v : Value} {job : ReviewJob}
    (h : validateReviewJob v = some job) : validJob job = true := by
  unfold validateReviewJob at h
  exact (Option.filter_eq_some_iff.mp h).2

/-- What an accepted enqueue under `prKey` did to the older record `r`. -/
def Swept (prKey : String) (r : JobRecord) (c c' : Controller) : Prop :=
  c'.records = c.records ∧ ¬(r.prKey = prKey ∧ r.terminal = false) ∨
    ∃ r', c'.records = c.records.set r.job.jobId r' ∧ r'.Obsolete

theorem terminal_of_not_active (hq : r.state ≠ .queued)
    (ha : isActiveState r.state ≠ true) : r.terminal = true := by
  rw [JobRecord.terminal]
  cases hs : r.state <;> simp_all [isActiveState, isTerminalState]

theorem supersedeExisting_moves {newId : String}
    (hr : c.records.get? r.job.jobId = some r) :
    Moves (Atomic G o now) c (supersedeExisting prKey newId now r)
      (fun _ c' => Swept prKey r c c') := by
  refine .ite (fun _ => .ite (fun hq => ?_) fun hq => .ite (fun ha => ?_) fun ha => ?_)
    fun hk => .pure (.inl ⟨rfl, fun h => hk h.1⟩)
  · refine .lift fun r' hr' => setRecord_moves hr ?_ (.inr ⟨_, rfl, ?_⟩)
    · have ht := not_terminal_of_withState hr'
      obtain ⟨hf, -, rfl⟩ := withState_ok hr'
      exact .drop .superseded _ _ _ _ rfl ht hf (.inl ⟨hq, rfl, rfl⟩) (.inl rfl)
    · obtain ⟨-, -, rfl⟩ := withState_ok hr'
      exact .inl rfl
  · have hswept : Swept prKey r c { c with
        records := c.records.set r.job.jobId
          { r with cancelRequested := true, supersededByJobId := newId } } :=
      .inr ⟨_, rfl, .inr ⟨ha, rfl⟩⟩
    refine .assign (.change hr (.stamp newId ha)) (.get ?_)
    split
    · exact .pure hswept
    · exact .step (.book (.abort _ _)) hswept
  · refine .pure (.inl ⟨rfl, fun h => ?_⟩)
    rw [terminal_of_not_active hq ha] at h
    cases h.2

theorem waiting_values {m : Map String JobRecord} (h : Keyed m) : Waiting m.values m :=
  ⟨nodup_jobIds h, fun _ hr => get?_of_mem_values h hr⟩

/-- The map after a sweep: another record, or the swept one. -/
theorem Swept.get? {c' : Controller} (h : Swept prKey r c c')
    {j : String} (hj : j ≠ r.job.jobId) : c'.records.get? j = c.records.get? j := by
  rcases h with ⟨he, -⟩ | ⟨r', he, -⟩ <;> rw [he]
  exact Map.get?_set_ne hj

/-- The sweep so far: the records to come are as they were in `c₀`, and every older generation under
`prKey` is to come or is obsolete. -/
structure Sweep (c₀ : Controller) (prKey newId : String) (rest : List JobRecord) (c : Controller) :
    Prop where
  waiting : Waiting rest c.records
  fresh : c.records.get? newId = none
  swept : ∀ j r, c₀.records.get? j = some r → r.prKey = prKey → r.terminal = false →
    r ∈ rest ∨ ∃ r', c.records.get? j = some r' ∧ r'.Obsolete ∧ ∀ x ∈ rest, x.job.jobId ≠ j

theorem Sweep.step {c₀ c' : Controller} {prKey newId : String} {r : JobRecord}
    {rest : List JobRecord} (hk : Keyed c₀.records) (h : Sweep c₀ prKey newId (r :: rest) c)
    (hs : Swept prKey r c c') : Sweep c₀ prKey newId rest c' := by
  refine ⟨⟨h.waiting.tail.nodup, fun x hx => ?_⟩, ?_, fun j x hj hkey ht => ?_⟩
  · rw [hs.get? (h.waiting.ne hx)]
    exact h.waiting.tail.current x hx
  · rw [hs.get?, h.fresh]
    rintro rfl
    have := h.waiting.current r mem_cons_self
    rw [h.fresh] at this
    cases this
  · rcases h.swept j x hj hkey ht with hm | ⟨x', hx', hobs, hne⟩
    · rcases mem_cons.mp hm with rfl | hm
      · rcases hs with ⟨-, hn⟩ | ⟨x', he, hobs⟩
        · exact absurd ⟨hkey, ht⟩ hn
        · refine .inr ⟨x', ?_, hobs, fun y hy => ?_⟩
          · rw [he, hk j x hj]; exact Map.get?_set_self _ _ _
          · rw [← hk j x hj]; exact h.waiting.ne hy
      · exact .inl hm
    · refine .inr ⟨x', ?_, hobs, fun y hy => hne y (mem_cons_of_mem _ hy)⟩
      rw [hs.get? (hne r mem_cons_self).symm, hx']

/-- An accepted enqueue: it is committed, and the older generations of its `prKey` are obsolete. -/
structure Accepted (c : Controller) (prKey : String) (c' : Controller) : Prop where
  saved : lastSaved c'.log = ⟨c'.records.values⟩
  obsolete : ∀ j r, c.records.get? j = some r → r.prKey = prKey → r.terminal = false →
    ∃ r', c'.records.get? j = some r' ∧ r'.Obsolete

theorem enqueue_moves (hk : Keyed c.records) {job : Value}
    (hg : ∀ validated, c.closed = false → validateReviewJob job = some validated →
      c.records.get? validated.jobId = none → G.insert) :
    Moves (Atomic G o now) c (enqueue o store now job) (fun result c' =>
      result.disposition = .duplicate ∨
        ∃ validated, validateReviewJob job = some validated ∧
          Accepted c (prIdentityKey validated) c') := by
  refine .ite (fun _ => .throw) fun _ => .get (.ite (fun _ => .throw) fun hopen => ?_)
  cases hv : validateReviewJob job with
  | none => exact .throw
  | some validated =>
    refine .ite (fun _ => .pure (.inl rfl)) fun hhas => ?_
    have hn : c.records.get? validated.jobId = none := Map.has_eq_false_iff.mp (by simpa using hhas)
    refine .bind (Moves.forM (I := Sweep c (prIdentityKey validated) validated.jobId)
      ⟨waiting_values hk, hn, fun j r hj _ _ => .inl (Map.mem_values_iff.mpr ⟨j, hj⟩)⟩
      fun r rest c' h => ?_) fun _ c' h' => ?_
    · exact (supersedeExisting_moves (h.waiting.current r mem_cons_self)).mono
        fun _ _ hs => h.step hk hs
    · refine .lift fun record hrec => ?_
      have hg := hg validated (by simpa using hopen) hv hn
      refine .assign (.insert (validJob_of_validateReviewJob hv) h'.fresh hrec hg) ?_
      refine .bind (save_moves fun s hs => ?_) fun _ c'' hc => .pure (.inr ⟨validated, rfl, hc⟩)
      refine ⟨(parseQueueSnapshot_snapshotValue.mp hs).1, fun j r hj hkey ht => ?_⟩
      rcases h'.swept j r hj hkey ht with hm | ⟨r', hr', hobs, -⟩
      · cases hm
      · refine ⟨r', ?_, hobs⟩
        rw [← hr']
        exact Map.get?_set_ne fun he => by rw [he, h'.fresh] at hr'; cases hr'

/-! ## Settlement -/

theorem running_of_publishing (h : canTransition s .publishing = true) :
    s = .running := by
  cases s <;> simp_all [canTransition, transitions]

theorem settleCompleted_moves
    (hj : c.records.get? jobId = some r) (hg : G.settle c.executions .completed r) :
    Moves (Atomic G o now) c (settleCompleted o store now jobId token r outcome)
      (fun _ _ => True) := by
  refine .lift fun r₁ hr₁ => ?_
  obtain ⟨hn, ht, rfl⟩ := withState_ok hr₁
  refine .assign (.change hj (.result outcome.resultHeadSha (running_of_publishing ht) hn hg))
    (.get ?_)
  have hj' := Map.get?_set_self c.records jobId
    { r with state := .publishing, resultHeadSha := outcome.resultHeadSha, updatedAtMs := now }
  refine .ite (fun hm => ?_) fun hm => .ite (fun hp => ?_) fun hp =>
    .ite (fun _ => .pure trivial) fun hf => ?_
  · exact .lift fun r₂ hr₂ => setRecord_moves hj' (retired_change hr₂) trivial
  · refine .lift fun r₂ hr₂ => setRecord_moves hj' ?_ trivial
    obtain ⟨-, -, rfl⟩ := withState_ok hr₂
    exact .complete _ rfl (by simpa using hm) hn (.inl rfl)
  · refine .assign (.book (.fly (by simpa using hf))) ?_
    refine .bind (save_moves (Q := fun _ c' => c'.records = c.records.set jobId _)
      fun _ _ => rfl) fun _ c' hc' => ?_
    exact .step (.publish (by rw [hc']; exact hj') rfl (by rw [hc']; simpa using hm) rfl) trivial

theorem settle_moves
    (hg : ∀ r, c.records.get? jobId = some r → r.leaseOwner = token →
      G.settle c.executions outcome.status r) :
    Moves (Atomic G o now) c (settle o store now jobId token outcome) (fun _ _ => True) := by
  have release : Moves (Atomic G o now) c (releaseController jobId token) (fun _ _ => True) :=
    (releaseController_moves jobId token).mono fun _ _ _ => trivial
  -- a failed and a cancelled execution end alike
  have last : ∀ c' : Controller, Moves (Atomic G o now) c'
      (do releaseController jobId token; save store) (fun _ _ => True) := fun c' =>
    .bind (releaseController_moves jobId token) fun _ _ _ => save_moves'
  refine .get ?_
  cases hj : c.records.get? jobId with
  | none => exact release
  | some r =>
    refine .ite (fun _ => release) fun hx => ?_
    simp only [Bool.or_eq_true, decide_eq_true_eq, not_or, not_not] at hx
    have hg := hg r hj hx.2
    cases hst : outcome.status with
    | completed =>
      rw [hst] at hg
      refine .bind (settleCompleted_moves hj hg) fun _ _ _ => .step (.book (.suspend _ _)) trivial
    | failed =>
      rw [hst] at hg
      exact .lift fun r' hr' => .assign (.change hj (failedRecord_change hr' hg)) (last _)
    | cancelled =>
      rw [hst] at hg
      exact .lift fun r' hr' => .assign (.change hj (cancelledRecord_change hr' hg)) (last _)

theorem executorSettled_moves
    (hg : (jobId, token) ∈ c.executions → ∀ r, c.records.get? jobId = some r →
      r.leaseOwner = token → G.settle (c.executions.erase (jobId, token)) outcome.status r) :
    Moves (Atomic G o now) c (executorSettled o store now jobId token outcome) (fun _ _ => True) :=
  .get (.ite (fun h => .assign (.book (.settles h)) (settle_moves (hg h))) fun _ => .pure trivial)

theorem settleDone_moves :
    Moves (Atomic G o now) c (settleDone store jobId token) (fun _ _ => True) :=
  .get (.ite (fun _ => .assign (.book (.resume _ _)) (.bind (releaseController_moves jobId token)
    fun _ _ _ => save_moves')) fun _ => .pure trivial)

/-- The rest of `runPublish` runs at the clock reading of the call. -/
theorem publishSettled_moves {call : PublishCall}
    (hg : call ∈ c.publishes → published = false → G.again) :
    Moves (Atomic G o call.now) c (publishSettled o store call published) (fun _ _ => True) := by
  refine .get (.ite (fun h => .assign (.book (.land h)) ?_) fun _ => .pure trivial)
  cases hj : c.records.get? call.jobId with
  | none => exact .pure trivial
  | some r =>
    refine .ite (fun _ => .pure trivial) fun hx => ?_
    simp only [Bool.or_eq_true, decide_eq_true_eq, not_or, not_not] at hx
    exact .lift fun r' hr' => .assign 
      (.change hj (publishedRecord_change hx.1 hr' (hg h))) save_moves'

/-! ## Leases held from outside -/

theorem heartbeat_moves
    (hg : ∀ r, c.records.get? jobId = some r → leaseIsValid r owner now = true →
      G.renew c.log r owner) :
    Moves (Atomic G o now) c (heartbeat o store now jobId owner) (fun _ _ => True) := by
  refine .get ?_
  cases hj : c.records.get? jobId with
  | none => exact .pure trivial
  | some r =>
    refine .ite (fun _ => .pure trivial) fun hv => .lift fun r' hr' => ?_
    obtain ⟨hn, ho, rfl⟩ := withRenewedLease_ok hr'
    have hv : leaseIsValid r owner now = true := by simpa using hv
    refine .assign (.change hj (.renew owner ho hn (.inl hv) (hg r hj hv))) ?_
    exact .bind save_moves' fun _ _ _ => .pure trivial

theorem recoverable_eq_some (h : recoverable c jobId = some r) :
    c.records.get? jobId = some r ∧ r.working = true ∧ c.controllers.get? jobId = none := by
  unfold recoverable at h
  split at h
  · cases h
  · next hj =>
    split at h
    · next hx =>
      cases h
      rw [Bool.and_eq_true, Bool.not_eq_true'] at hx
      exact ⟨hj, hx.1, Map.has_eq_false_iff.mp hx.2⟩
    · cases h

theorem resolveRecovered_moves
    (hg : ∀ r, recoverable c jobId = some r → G.settle c.executions outcome.status r) :
    Moves (Atomic G o now) c (resolveRecovered o store now jobId outcome) (fun _ _ => True) := by
  refine .get ?_
  cases hr : recoverable c jobId with
  | none => exact .pure trivial
  | some r =>
    refine .ite (fun _ => .pure trivial) fun _ => .bind (settle_moves fun r' hr' _ => ?_)
      fun _ _ _ => .pure trivial
    obtain rfl : r = r' := Option.some.inj ((recoverable_eq_some hr).1.symm.trans hr')
    exact hg r hr

theorem adoptRecovered_moves
    (hg : owner ≠ "" → ∀ r, recoverable c jobId = some r → G.renew c.log r owner) :
    Moves (Atomic G o now) c (adoptRecovered o store now jobId owner) (fun _ _ => True) := by
  refine .ite (fun _ => .pure trivial) fun _ => .get ?_
  cases hr : recoverable c jobId with
  | none => exact .pure trivial
  | some r =>
    obtain ⟨hj, hw, hc⟩ := recoverable_eq_some hr
    refine .lift fun r' hr' => ?_
    obtain ⟨hn, ho, rfl⟩ := withRenewedLease_ok hr'
    refine .assign (.change hj (.renew owner ho hn (.inr ⟨hw, hc⟩) (hg ho r hr))) ?_
    exact .bind save_moves' fun _ _ _ => .pure trivial

/-! ## Shutdown and recovery -/

theorem cancelRemaining_moves :
    Moves (Atomic G o now) c (cancelRemaining store now) (fun _ _ => True) := by
  refine .get (.bind (Moves.forM (I := fun _ c' => c'.records = c.records) rfl ?_)
    fun _ c₁ h₁ => .assign (.book .clear) ?_)
  · rintro ⟨j, token⟩ _ c' h
    exact .step (.book (.abort j token)) h
  · refine .bind (Moves.forM (I := fun rest c' => Pending rest c'.records)
      (by rw [h₁]; exact Pending.entries _) ?_) fun _ _ _ => save_moves'
    rintro ⟨j, r⟩ rest c' hp
    refine .ite (fun hx => .lift fun r' hr' => ?_) fun _ => .pure hp.tail
    rw [Bool.and_eq_true, Bool.not_eq_true'] at hx
    exact setRecord_moves hp.head (drop_change hr' rfl (.inl hx.2)) (hp.set _)

theorem drainPass_moves (hg : TickGuard G o now c) (hk : Keyed c.records) {d : Drain} :
    Moves (Atomic G o now) c (drainPass o store now d) (fun _ _ => True) :=
  .get (.ite (fun _ => .bind (tick_moves hg hk) fun _ _ _ => .step (.book (.drains _)) trivial)
    fun _ => cancelRemaining_moves)

theorem recover_moves (hg : ∀ r ∈ (lastSaved c.log).records,
      recoveryVerdict now o.maxAttempts r = .requeue → G.requeue r) (hs : G.recover c.log) :
    Moves (Atomic G o now) c (recover o store now) (fun _ _ => True) := by
  refine .get (.lift fun rec hrec => ?_)
  unfold reconcileRecoveredSnapshot at hrec
  split at hrec
  · cases hrec
  · next hn =>
    split at hrec
    · cases hrec
    · next rebuilt hp =>
      obtain ⟨rfl, hok⟩ := parseQueueSnapshot_snapshotValue.mp hp
      cases hrec
      dsimp only
      split
      · exact .throw
      · next records hr =>
        refine .assign (.adopt (by simpa using hn) hok hr hg hs) ?_
        exact .bind save_moves' fun _ _ _ => .pure trivial

/-! ## Events -/

/-- What the guards assume of an event in the state in which it comes. A drain may close intake or
take a drain off its list before it ticks, which changes nothing the guards see. -/
def EventGuard (G : Guards) (o : SchedulerOptions) (now : Number) (c : Controller) : Event → Prop
  | .enqueue job => ∀ validated, c.closed = false → validateReviewJob job = some validated →
    c.records.get? validated.jobId = none → G.insert
  | .tick => TickGuard G o now c
  | .heartbeat j owner =>
    ∀ r, c.records.get? j = some r → leaseIsValid r owner now = true → G.renew c.log r owner
  | .resolveRecovered j outcome =>
    ∀ r, recoverable c j = some r → G.settle c.executions outcome.status r
  | .adoptRecovered j owner => owner ≠ "" → ∀ r, recoverable c j = some r → G.renew c.log r owner
  | .executorSettled j token outcome =>
    (j, token) ∈ c.executions → ∀ r, c.records.get? j = some r → r.leaseOwner = token →
      G.settle (c.executions.erase (j, token)) outcome.status r
  | .settleDone _ _ => True
  | .publishSettled call published => call ∈ c.publishes → published = false → G.again
  | .shutdown _ => TickGuard G o now { c with closed := true }
  | .drainStep d => TickGuard G o now { c with drains := c.drains.erase d }
  | .recover =>
    (∀ r ∈ (lastSaved c.log).records, recoveryVerdict now o.maxAttempts r = .requeue →
      G.requeue r) ∧ G.recover c.log

/-- The clock reading that a stretch uses. -/
def Event.clock (now : Number) : Event → Number
  | .publishSettled call _ => call.now
  | _ => now

/-- **Every stretch is made of atomic steps.** -/
theorem exec_moves {e : Event} (hk : Keyed c.records) (hg : EventGuard G o now c e) :
    Moves (Atomic G o (e.clock now)) c (exec o store now e) (fun _ _ => True) := by
  cases e with
  | enqueue job => exact .bind (enqueue_moves hk hg) fun _ _ _ => .pure trivial
  | tick => exact tick_moves hg hk
  | heartbeat jobId owner => exact .bind (heartbeat_moves hg) fun _ _ _ => .pure trivial
  | resolveRecovered jobId outcome =>
    exact .bind (resolveRecovered_moves hg) fun _ _ _ => .pure trivial
  | adoptRecovered jobId owner => exact .bind (adoptRecovered_moves hg) fun _ _ _ => .pure trivial
  | executorSettled jobId token outcome => exact executorSettled_moves hg
  | settleDone jobId token => exact settleDone_moves
  | publishSettled call published => exact publishSettled_moves hg
  | shutdown drainMs =>
    exact .assign (.book .close) (.get (drainPass_moves (c := { c with closed := true }) hg hk))
  | drainStep d =>
    refine .get (.ite (fun _ => .assign (.book (.drains _)) ?_) fun _ => .pure trivial)
    exact .ite (fun _ => cancelRemaining_moves) fun _ =>
      drainPass_moves (c := { c with drains := c.drains.erase d }) hg hk
  | recover => exact .bind (recover_moves hg.1 hg.2) fun _ _ _ => .pure trivial

/-! ## Runs -/

/-- Where requeues and dispatches need no guard, a tick needs none. -/
theorem tickGuard_free (hr : ∀ r, G.requeue r) (hd : ∀ c r, G.dispatch c r) :
    TickGuard G o now c :=
  ⟨⟨fun _ => True, ⟨fun _ _ _ _ _ _ _ _ => hr _, fun _ _ _ _ _ _ _ _ => trivial⟩, trivial⟩,
    fun _ => True, ⟨fun _ _ _ _ _ => hd _ _, fun _ _ _ _ => trivial⟩, trivial⟩

theorem eventGuard_none {e : Event} : EventGuard Guards.none o now c e := by
  cases e with
  | tick | shutdown | drainStep => exact tickGuard_free (fun _ => trivial) fun _ _ => trivial
  | settleDone => exact trivial
  | heartbeat | adoptRecovered => exact fun _ _ _ => trivial
  | resolveRecovered | publishSettled => exact fun _ _ => trivial
  | enqueue | executorSettled => exact fun _ _ _ _ => trivial
  | recover => exact ⟨fun _ _ _ => trivial, trivial⟩

theorem keyed_boot (log : List Effect) : Keyed (boot log).records := by
  unfold boot
  cases h : recordsOf (lastSaved log) with
  | none => rintro j r ⟨⟩
  | some m => exact Keyed.recordsOf h

theorem keyed_step (hk : Keyed c.records) : Keyed (step o c l).records := by
  unfold step
  cases l.crash with
  | some k => exact keyed_boot _
  | none =>
    have hm : Moves (Atomic Guards.none o (l.event.clock l.now)) c (exec o l.store l.now l.event) _ :=
      exec_moves hk eventGuard_none
    have hp := hm.path
    exact invariant_of_path (I := fun c => Keyed c.records) hp (fun _ _ h hs => hs.keyed h) hk

/-- Records stand under their own ids throughout a run. -/
theorem keyed_run (o : SchedulerOptions) (ls : List Label) : Keyed (run o fresh ls).records :=
  run_induct (I := fun c => Keyed c.records) (keyed_boot [])
    (along_of_forall (P := fun _ _ => True) (fun _ _ => trivial) _ _) fun _ _ h _ => keyed_step h

/-- The history at which the process of a label dies, if it does. -/
def diesAt (o : SchedulerOptions) (c : Controller) (l : Label) : Option (List Effect) :=
  l.crash.map fun k => cutLog k c.log ((exec o l.store l.now l.event).final c).log

/-- **Step lemma.** What atomic steps and a restart after the process died keep, a label keeps. -/
theorem step_invariant {I : Controller → Prop}
    (hI : ∀ c c', Keyed c.records → I c → Atomic G o (l.event.clock l.now) c c' → I c')
    (hboot : ∀ m, diesAt o c l = some m.log → I m → I (boot m.log)) (hk : Keyed c.records)
    (hg : EventGuard G o l.now c l.event) (hi : I c) : I (step o c l) := by
  have along : ∀ c', ReflTransGen (Atomic G o (l.event.clock l.now)) c c' →
      Keyed c'.records ∧ I c' := fun c' h =>
    invariant_of_path (I := fun c => Keyed c.records ∧ I c) h
      (fun _ _ h hs => ⟨hs.keyed h.1, hI _ _ h.1 h.2 hs⟩) ⟨hk, hi⟩
  have hm : Moves (Atomic G o (l.event.clock l.now)) c (exec o l.store l.now l.event) _ :=
    exec_moves hk hg
  have hp := hm.path
  unfold step
  unfold diesAt at hboot
  cases hc : l.crash with
  | none => exact (along _ hp).2
  | some k =>
    obtain ⟨m, hm, hl⟩ := exists_cut hp k
    dsimp only
    rw [← hl]
    exact hboot m (by rw [hc, hl]; rfl) (along m hm).2

/-- **Run lemma.** What atomic steps and restarts keep holds at the end of every run whose labels
meet their guards. -/
theorem run_invariant {G : Label → Guards} {I : Controller → Prop} {P : Controller → Label → Prop}
    (hk : Keyed c.records) (h0 : I c) (hP : Along o P c ls)
    (hI : ∀ l c c', Keyed c.records → I c → Atomic (G l) o (l.event.clock l.now) c c' → I c')
    (hboot : ∀ c l m, P c l → diesAt o c l = some m.log → I m → I (boot m.log))
    (hg : ∀ c l, Keyed c.records → I c → P c l → EventGuard (G l) o l.now c l.event) :
    I (run o c ls) := by
  have both : Keyed (run o c ls).records ∧ I (run o c ls) :=
    run_induct (I := fun c => Keyed c.records ∧ I c) ⟨hk, h0⟩ hP fun c l hi hl =>
      ⟨keyed_step hi.1,
        step_invariant (hI l) (fun m => hboot c l m hl) hi.1 (hg c l hi.1 hi.2 hl) hi.2⟩
  exact both.2

/-- What atomic steps and restarts always keep holds at the end of every run. -/
theorem run_invariant' {I : Controller → Prop} (h0 : I fresh)
    (hI : ∀ now c c', Keyed c.records → I c → Atomic Guards.none o now c c' → I c')
    (hboot : ∀ c, I c → I (boot c.log)) : I (run o fresh ls) :=
  run_invariant (P := fun _ _ => True) (keyed_boot []) h0 (along_of_forall (fun _ _ => trivial) _ _)
    (fun _ => hI _) (fun _ _ m _ _ h => hboot m h) fun _ _ _ _ _ => eventGuard_none

end PrReviewer.Queue
