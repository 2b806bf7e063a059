import PrReviewer.Queue.Moves

/-!
# What the store holds

A process that dies leaves the last committed snapshot, and the next one begins with its records. So
an invariant that survives crashes speaks of two maps: the records in memory and the records of the
store (`saved`). A commit makes them equal (`get?_saved_save`); a recovery makes memory the reconciled
store (`get?_adopt`); nothing else touches the store.

`Since` says what has been done since some moment of the history; `dispatches` are the calls of
`executor.start` in it, `unsaved` those that no commit has followed.

A pass dispatches the eligible records, and before that it requeues those whose lease has lapsed. So a
record that is neither when the pass begins (`dispatchable`) is not dispatched by it: what a pass may
assume of the jobs it dispatches, it may assume where it begins (`tickGuard_pass`).
-/

open Js

namespace PrReviewer.Queue

variable {G : Guards} {o : SchedulerOptions} {now : Number} {c c' : Controller}

/-! ## The saved records -/

/-- The records that a process over `log` begins with. -/
def saved (log : List Effect) : Map String JobRecord := (boot log).records

@[simp] theorem boot_log (log : List Effect) : (boot log).log = log := rfl

@[simp] theorem boot_records (log : List Effect) : (boot log).records = saved log := rfl

@[simp] theorem saved_abort (j token : String) (log : List Effect) :
    saved (.abort j token :: log) = saved log := rfl

/-- Nothing but a commit touches the store. -/
theorem Quiet.saved (h : Quiet c c') : saved c'.log = saved c.log := by
  rcases h.log with hl | ⟨j, token, hl⟩ <;> rw [hl]
  exact saved_abort j token c.log

theorem get?_saved {log : List Effect} (h : SnapshotOk (lastSaved log).records) {j : String}
    {r : JobRecord} :
    (saved log).get? j = some r ↔ r ∈ (lastSaved log).records ∧ r.job.jobId = j := by
  obtain ⟨m, hm⟩ := recordsOf_of_nodup (s := lastSaved log) h.distinct
  have hs : saved log = m := by simp [saved, boot, hm]
  rw [hs]
  exact get?_recordsOf hm

/-- A commit makes the store equal to memory. -/
theorem get?_saved_save {s : QueueSnapshot} {log : List Effect} (hk : Keyed c.records)
    (h : parseQueueSnapshot (snapshotValue c.records.values) = .ok s) (j : String) :
    (saved (.save s :: log)).get? j = c.records.get? j := by
  obtain ⟨rfl, hok⟩ := parseQueueSnapshot_snapshotValue.mp h
  have hlast : SnapshotOk (lastSaved (.save ⟨c.records.values⟩ :: log)).records := hok
  refine Option.ext fun r => (get?_saved hlast).trans ?_
  constructor
  · rintro ⟨hr, rfl⟩
    exact get?_of_mem_values hk hr
  · intro hr
    exact ⟨Map.mem_values_iff.mpr ⟨j, hr⟩, hk j r hr⟩

variable {n : Nat} {r : JobRecord}

/-- A recovery makes memory the reconciled store. -/
theorem get?_adopt {log : List Effect} {records : Map String JobRecord}
    (hk : SnapshotOk (lastSaved log).records)
    (hr : recordsOf ⟨(lastSaved log).records.map (reconcileRecord now n)⟩ = some records)
    (j : String) :
    records.get? j = ((saved log).get? j).map (reconcileRecord now n) := by
  refine Option.ext fun r => (get?_recordsOf hr).trans ?_
  rw [Option.map_eq_some_iff, List.mem_map]
  constructor
  · rintro ⟨⟨x, hx, rfl⟩, hj⟩
    exact ⟨x, (get?_saved hk).mpr ⟨hx, by rw [← hj, (reconcileRecord_frame now n x).1]⟩, rfl⟩
  · rintro ⟨x, hx, rfl⟩
    obtain ⟨hm, hj⟩ := (get?_saved hk).mp hx
    exact ⟨⟨x, hm, rfl⟩, by rw [(reconcileRecord_frame now n x).1, hj]⟩

/-- What the store holds is in order. -/
theorem savedOk_atomic (h : Atomic G o now c c') (hs : SnapshotOk (lastSaved c.log).records) :
    SnapshotOk (lastSaved c'.log).records := by
  cases h with
  | change | insert | dispatch | publish | adopt => exact hs
  | save h =>
    obtain ⟨rfl, hok⟩ := parseQueueSnapshot_snapshotValue.mp h
    exact hok
  | book h =>
    rcases h.quiet.log with hl | ⟨j, token, hl⟩ <;> rw [hl] <;> exact hs

theorem savedOk_run (o : SchedulerOptions) (ls : List Label) :
    SnapshotOk (lastSaved (run o fresh ls).log).records :=
  run_invariant' (I := fun c => SnapshotOk (lastSaved c.log).records) ⟨by rintro r ⟨⟩, .nil⟩
    (fun _ _ _ _ hi hs => savedOk_atomic hs hi) fun _ hi => hi

/-! ## The history since a moment -/

/-- Every effect of `log` since `log₀` satisfies `P`. -/
def Since (P : Effect → Prop) (log₀ log : List Effect) : Prop :=
  ∃ new, log = new ++ log₀ ∧ ∀ e ∈ new, P e

namespace Since

variable {P : Effect → Prop} {log₀ log : List Effect}

theorem refl (P : Effect → Prop) (log : List Effect) : Since P log log :=
  ⟨[], rfl, fun _ h => absurd h List.not_mem_nil⟩

theorem cons (h : Since P log₀ log) {e : Effect} (he : P e) : Since P log₀ (e :: log) := by
  obtain ⟨new, rfl, hn⟩ := h
  refine ⟨e :: new, rfl, fun x hx => ?_⟩
  rcases List.mem_cons.mp hx with rfl | hx
  · exact he
  · exact hn x hx

/-- Aborts and silence. -/
theorem quiet (h : Since P log₀ c.log) (hq : Quiet c c') (hp : ∀ j token, P (.abort j token)) :
    Since P log₀ c'.log := by
  rcases hq.log with hl | ⟨j, token, hl⟩ <;> rw [hl]
  · exact h
  · exact h.cons (hp j token)

end Since

/-! ## What stays of one record -/

/-- The map holds a record of the job that satisfies `P`. -/
def Holds (P : JobRecord → Prop) (jobId : String) (records : Map String JobRecord) : Prop :=
  ∃ r, records.get? jobId = some r ∧ P r

section Stays

variable {P : JobRecord → Prop} {a : String} {Q : Effect → Prop} {log₀ : List Effect}

/-- A set under another id, or of a record that satisfies `P`. -/
theorem Holds.set {m : Map String JobRecord} {j : String} {r : JobRecord} (h : Holds P a m)
    (hr : j = a → P r) : Holds P a (m.set j r) := by
  obtain ⟨x, hx, hp⟩ := h
  by_cases hj : a = j
  · subst hj
    exact ⟨r, Map.get?_set_self _ _ _, hr rfl⟩
  · exact ⟨x, by rw [Map.get?_set_ne hj, hx], hp⟩

/-- `P` is a property of the records of `a` that no change ends, and no record that waits for a
dispatch has it. -/
structure Stays (G : Guards) (o : SchedulerOptions) (P : JobRecord → Prop) (a : String) : Prop where
  not_queued : ∀ r, P r → r.state ≠ .queued
  change : ∀ now c r r', P r → r.job.jobId = a → Change G o now c a r r' → P r'
  recovery : ∀ now r r', P r → r.job.jobId = a → Recovery now o.maxAttempts r r' →
    (recoveryVerdict now o.maxAttempts r = .requeue → G.requeue r) → P r'

/-- **What stays, stays** in memory and in the store. -/
theorem Holds.atomic (hm : Holds P a c.records) (hs : Holds P a (saved c.log))
    (hP : Stays G o P a) (hk : Keyed c.records) (h : Atomic G o now c c') :
    Holds P a c'.records ∧ Holds P a (saved c'.log) := by
  obtain ⟨x, hx, hp⟩ := id hm
  cases h with
  | @change j r r' hj hc =>
    refine ⟨hm.set fun he => ?_, hs⟩
    subst he
    rw [hj] at hx
    cases hx
    exact hP.change now c x r' hp (hk j x hj) hc
  | insert hv hj hr hg =>
    refine ⟨hm.set fun he => ?_, hs⟩
    rw [← he, hj] at hx
    cases hx
  | @dispatch r running hj he ha hsib hc hf hr hg =>
    obtain ⟨-, hq, rfl⟩ := runningRecord_ok hr
    refine ⟨hm.set fun he => ?_, hs⟩
    rw [← he, hj] at hx
    cases hx
    exact absurd hq (hP.not_queued x hp)
  | publish => exact ⟨hm, hs⟩
  | save hsave => exact ⟨hm, x, by rw [get?_saved_save hk hsave, hx], hp⟩
  | adopt hn hok hr hg hrec =>
    obtain ⟨y, hy, hp'⟩ := id hs
    obtain ⟨hmem, hid⟩ := (get?_saved hok).mp hy
    have hnew := hP.recovery now y _ hp' hid (reconcileRecord_recovery _ _ _) (hg y hmem)
    exact ⟨⟨_, by rw [get?_adopt hok hr, hy]; rfl, hnew⟩, hs⟩
  | book hb => rw [hb.quiet.records, hb.quiet.saved]; exact ⟨hm, hs⟩

theorem Holds.of_get? {m : Map String JobRecord} (hk : Keyed m) {j : String} {r : JobRecord}
    (h : m.get? j = some r) (hp : P r) : Holds P r.job.jobId m :=
  ⟨r, by rw [hk j r h, h], hp⟩

/-- Of each record `r` of the store that satisfies `D`, memory holds one that satisfies `K r`. -/
def Outlives (D : JobRecord → Prop) (K : JobRecord → JobRecord → Prop) (c : Controller) : Prop :=
  ∀ j r, (saved c.log).get? j = some r → D r → Holds (K r) r.job.jobId c.records

variable {D : JobRecord → Prop} {K : JobRecord → JobRecord → Prop}

theorem Outlives.boot (hK : ∀ r, D r → K r r) (log : List Effect) : Outlives D K (boot log) :=
  fun _ r hr hd => .of_get? (keyed_boot log) hr (hK r hd)

theorem Outlives.atomic (h : Outlives D K c) (hP : ∀ r, D r → Stays G o (K r) r.job.jobId)
    (hK : ∀ r, D r → K r r) (hk : Keyed c.records) (hs : Atomic G o now c c') :
    Outlives D K c' := by
  intro j r hj hd
  by_cases he : (saved c'.log).get? j = (saved c.log).get? j
  · rw [he] at hj
    have hsaved := Holds.of_get? (keyed_boot c.log) hj (hK r hd)
    exact ((h j r hj hd).atomic hsaved (hP r hd) hk hs).1
  · -- a commit, which makes the store equal to memory
    cases hs with
    | save hp => exact .of_get? hk (by rwa [get?_saved_save hk hp] at hj) (hK r hd)
    | change | insert | dispatch | publish | adopt => exact absurd rfl he
    | book hb => exact absurd (by rw [hb.quiet.saved]) he

/-- What the effects satisfy while the records of `a` satisfy `P`. -/
structure Watches (P : JobRecord → Prop) (a : String) (Q : Effect → Prop) : Prop where
  start : ∀ r, r.job.jobId ≠ a → Q (.start r)
  abort : ∀ j token, Q (.abort j token)
  publish : ∀ r, r.state = .publishing → r.cancelRequested = false → (r.job.jobId = a → P r) →
    Q (.publish r)
  save : ∀ s r, r ∈ s.records → P r → Q (.save s)

/-- `P` holds of the record of `a`, and `Q` of all effects since `log₀`. -/
structure Lasts (P : JobRecord → Prop) (a : String) (Q : Effect → Prop) (log₀ : List Effect)
    (c : Controller) : Prop where
  memory : Holds P a c.records
  store : Holds P a (saved c.log)
  since : Since Q log₀ c.log

theorem Lasts.atomic (h : Lasts P a Q log₀ c) (hP : Stays G o P a) (hQ : Watches P a Q)
    (hk : Keyed c.records) (hs : Atomic G o now c c') : Lasts P a Q log₀ c' := by
  obtain ⟨hm, hst⟩ := h.memory.atomic h.store hP hk hs
  refine ⟨hm, hst, ?_⟩
  obtain ⟨x, hx, hp⟩ := h.memory
  cases hs with
  | change | insert | adopt => exact h.since
  | book hb => exact h.since.quiet hb.quiet hQ.abort
  | save hsave =>
    obtain ⟨rfl, -⟩ := parseQueueSnapshot_snapshotValue.mp hsave
    exact h.since.cons (hQ.save _ x (Map.mem_values_iff.mpr ⟨_, hx⟩) hp)
  | @publish call r hj hpub hmay hn =>
    refine h.since.cons (hQ.publish r hpub ?_ fun he => ?_)
    · simp only [mayPublish, Bool.and_eq_true, Bool.not_eq_true'] at hmay
      exact hmay.1
    · rw [hk _ r hj] at he
      rw [← he, hj] at hx
      cases hx
      exact hp
  | dispatch hj he ha hsib hc hf hr hg =>
    obtain ⟨-, hq, rfl⟩ := runningRecord_ok hr
    refine h.since.cons (hQ.start _ fun heq => ?_)
    rw [← heq, hj] at hx
    cases hx
    exact hP.not_queued _ hp hq

theorem Lasts.boot (h : Lasts P a Q log₀ c) : Lasts P a Q log₀ (boot c.log) :=
  ⟨h.store, h.store, h.since⟩

end Stays

/-! ## Dispatches in the history -/

/-- The dispatches of a history, newest first: the job and the token of its lease. -/
def dispatches : List Effect → List (String × String)
  | [] => []
  | .start r :: log => (r.job.jobId, r.leaseOwner) :: dispatches log
  | .abort _ _ :: log | .publish _ :: log | .save _ :: log => dispatches log

/-- The dispatches that no commit has followed. -/
def unsaved : List Effect → List (String × String)
  | [] | .save _ :: _ => []
  | .start r :: log => (r.job.jobId, r.leaseOwner) :: unsaved log
  | .abort _ _ :: log | .publish _ :: log => unsaved log

/-- How often the job was passed to `executor.start`. -/
def starts (jobId : String) (ds : List (String × String)) : Nat := ds.countP (fun d => d.1 = jobId)

@[simp] theorem starts_nil (j : String) : starts j [] = 0 := rfl

theorem starts_cons (j : String) (d : String × String) (ds : List (String × String)) :
    starts j (d :: ds) = starts j ds + if d.1 = j then 1 else 0 := by
  simp [starts, List.countP_cons]

theorem Quiet.dispatches (h : Quiet c c') :
    dispatches c'.log = dispatches c.log ∧ unsaved c'.log = unsaved c.log := by
  rcases h.log with hl | ⟨j, token, hl⟩ <;> rw [hl] <;> exact ⟨rfl, rfl⟩

theorem leaseToken_inj {jobId : String} {m : Nat} (h : leaseToken jobId m = leaseToken jobId n) :
    m = n := by
  have hs : toString m = toString n := (String.append_right_inj _).mp h
  have hd := congrArg String.toList hs
  rw [Nat.toString_eq_repr, Nat.toString_eq_repr, Nat.toList_repr, Nat.toList_repr] at hd
  rw [← Nat.ofDigitChars_ten_toDigits (n := m), hd, Nat.ofDigitChars_ten_toDigits]

theorem leaseToken_ne_empty (jobId : String) (n : Nat) : leaseToken jobId n ≠ "" := by
  intro h
  have := congrArg String.toList h
  simp [leaseToken] at this

/-! ## What a scheduling pass may dispatch -/

/-- A scheduling pass does not settle, renew, insert or recover. -/
def Guards.inPass (G : Guards) : Guards :=
  { G with
    settle := fun _ _ _ => False, renew := fun _ _ _ => False, insert := False
    recover := fun _ => False }

/-- The record may be dispatched by a scheduling pass: at once, or when its lease has expired. -/
def dispatchable (now : Number) (r : JobRecord) : Bool := eligible now r || leaseLapsed r now

theorem not_dispatchable (hq : r.state ≠ .queued) (hb : leaseLapsed r now = false) :
    dispatchable now r = false := by
  simp [dispatchable, eligible, hq, hb]

theorem not_active_of_terminal (h : r.terminal = true) : isActiveState r.state = false := by
  rw [JobRecord.terminal] at h
  cases hs : r.state <;> simp_all [isActiveState, isTerminalState]

theorem leaseLapsed_of_terminal (h : isTerminalState r.state = true) :
    leaseLapsed r now = false := by
  simp [leaseLapsed, JobRecord.blocking, not_active_of_terminal h]

theorem dispatchable_of_terminal (h : isTerminalState r.state = true) :
    dispatchable now r = false :=
  not_dispatchable (by rintro hq; rw [hq] at h; cases h) (leaseLapsed_of_terminal h)

/-- In a scheduling pass a record becomes dispatchable only when its lease has lapsed. -/
theorem dispatchable_of_change {j : String} {r' : JobRecord}
    (hc : Change G.inPass o now c j r r') (hd : dispatchable now r' = true) :
    dispatchable now r = true := by
  cases hc with
  | stamp => exact hd
  | requeue hl => simp [dispatchable, hl]
  | drop s reason newer owner expires hs =>
    rw [dispatchable_of_terminal (terminal_of_isDropState hs)] at hd
    cases hd
  | complete => rw [dispatchable_of_terminal rfl] at hd; cases hd
  | again hp =>
    have h0 : ((0 : Number) ≤ 0) := by decide
    rw [not_dispatchable (by simp [JobRecord.unleased, hp])
      (by simp [leaseLapsed, JobRecord.unleased, h0])] at hd
    cases hd
  | retry hx ha hc hn hg | result head hr hn hg | renew owner ho hn hx hg => exact hg.elim

/-- The dispatchable records are of jobs that satisfy `Q`. -/
def Allows (now : Number) (Q : String → Prop) (records : Map String JobRecord) : Prop :=
  ∀ j r, records.get? j = some r → dispatchable now r = true → Q j

theorem Allows.atomic {Q : Controller → String → Prop} (h : Allows now (Q c) c.records)
    (hQ : ∀ j, Q c j → Q c' j) (hs : Atomic G.inPass o now c c') :
    Allows now (Q c') c'.records := by
  cases hs with
  | @change j r r' hj hc =>
    intro i x hx hd
    rw [Map.get?_set] at hx
    split at hx
    · next hij =>
      cases hx
      exact hQ i (h i r (hij ▸ hj) (dispatchable_of_change hc hd))
    · exact hQ i (h i x hx hd)
  | insert hv hj hr hg => exact hg.elim
  | adopt hn hok hr hg hrec => exact hrec.elim
  | @dispatch r running hj he ha hsib hc hf hr hg =>
    obtain ⟨-, -, rfl⟩ := runningRecord_ok hr
    intro i x hx hd
    change (c.records.set r.job.jobId _).get? i = some x at hx
    rw [Map.get?_set] at hx
    split at hx
    · next hij => exact hQ i (h i r (hij ▸ hj) (by rw [dispatchable, he, Bool.true_or]))
    · exact hQ i (h i x hx hd)
  | publish | save => exact fun i x hx hd => hQ i (h i x hx hd)
  | book hb => exact fun i x hx hd => hQ i (h i x (by rwa [hb.quiet.records] at hx) hd)

/-- The guards of a pass, from what holds of the dispatchable records where it begins. -/
theorem tickGuard_pass {Q : Controller → String → Prop} (hr : ∀ r, G.requeue r)
    (hd : ∀ c r, Q c r.job.jobId → G.dispatch c r)
    (hQ : ∀ c c' j, Q c j → Atomic G.inPass o now c c' → Q c' j)
    (h : Allows now (Q c) c.records) : TickGuard G.inPass o now c := by
  refine ⟨⟨fun _ => True, ⟨fun _ _ _ _ _ _ _ _ => hr _, fun _ _ _ _ _ _ _ _ => trivial⟩, trivial⟩,
    fun c => Allows now (Q c) c.records, ⟨fun c r hc hr he => ?_, fun c c' hc hs => ?_⟩, h⟩
  · exact hd c r (hc _ r hr (by rw [dispatchable, he, Bool.true_or]))
  · exact hc.atomic (fun j hj => hQ c c' j hj hs) hs

end PrReviewer.Queue
