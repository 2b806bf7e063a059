import PrReviewer.Queue.Exclusive

/-!
# Supersession

When an enqueue of a newer generation is accepted, the older generations of its `prKey` are obsolete:
those that were queued are superseded, the active ones are stamped with `cancelRequested`
(`Accepted`). A stamped record is not retried and not published, so it cannot come back through a
settlement or a publish.

It can come back where a requeue forgets the stamp. An expired lease is requeued unless a newer
sibling is alive, but "newer" is by enqueue time and then by job id, and the newer generation may have
ended; a recovery does not look at all. So `superseded_run` asks that no lease of the obsolete
generation expires without a live newer sibling, and that no recovery requeues it (`Barred`);
`superseded_revived` is a run in which the generation starts again.
-/

open Js List

namespace PrReviewer.Queue

variable {G : Guards} {o : SchedulerOptions} {now : Number} {c c' : Controller}

/-! ## Live siblings -/

theorem foldl_newer_isSome (xs : List JobRecord) (w : JobRecord) :
    (xs.foldl newer (some w)).isSome = true := by
  induction xs generalizing w with
  | nil => rfl
  | cons x xs ih =>
    rw [foldl_cons, newer]
    split
    · exact ih x
    · exact ih w

variable {m : Map String JobRecord} {r : JobRecord} {a : String} {l : Label}

/-- A record has a superseding sibling exactly when one of the records supersedes it. -/
theorem findSupersedingSibling_isSome :
    (findSupersedingSibling m r).isSome = true ↔ ∃ x ∈ m.values, supersedes r x = true := by
  unfold findSupersedingSibling
  rw [Option.isSome_map]
  constructor
  · intro h
    cases hf : m.values.filter (supersedes r) with
    | nil => rw [hf] at h; cases h
    | cons x xs => exact ⟨x, mem_filter.mp (hf ▸ mem_cons_self)⟩
  · rintro ⟨x, hx, hs⟩
    cases hf : m.values.filter (supersedes r) with
    | nil =>
      have hm : x ∈ m.values.filter (supersedes r) := mem_filter.mpr ⟨hx, hs⟩
      rw [hf] at hm
      cases hm
    | cons y ys => exact foldl_newer_isSome ys y

theorem supersedes_frame {x : JobRecord} (h : supersedes r x = true) :
    x.prKey = r.prKey ∧ x.job.jobId ≠ r.job.jobId := by
  simp only [supersedes, Bool.and_eq_true, decide_eq_true_eq] at h
  exact ⟨h.1.1.1.1, h.1.1.1.2⟩

/-- A count of at most one has room for one element. -/
theorem eq_of_countP_le_one {α : Type} {p : α → Bool} {xs : List α} (h : xs.countP p ≤ 1) {a b : α}
    (ha : a ∈ xs) (hpa : p a = true) (hb : b ∈ xs) (hpb : p b = true) : a = b := by
  rw [countP_eq_length_filter] at h
  have ha' : a ∈ xs.filter p := mem_filter.mpr ⟨ha, hpa⟩
  have hb' : b ∈ xs.filter p := mem_filter.mpr ⟨hb, hpb⟩
  match hf : xs.filter p with
  | [] => rw [hf] at ha'; cases ha'
  | [x] =>
    rw [hf, mem_singleton] at ha' hb'
    rw [ha', hb']
  | _ :: _ :: _ => rw [hf] at h; simp at h

/-! ## What an obsolete generation can do -/

/-- A requeue of the generation `a` finds it without the stamp. -/
def Guards.barred (a : String) : Guards :=
  { Guards.none with requeue := fun r => r.job.jobId = a → r.cancelRequested = false }

theorem isActiveState_of_blocking (h : r.blocking = true) :
    isActiveState r.state = true := by
  simp only [JobRecord.blocking, Bool.and_eq_true] at h
  exact h.1

theorem stays_obsolete (a : String) : Stays (Guards.barred a) o JobRecord.Obsolete a where
  not_queued _ h := h.not_queued
  change now c r r' h hid hc := by
    cases hc with
    | stamp newer ha => exact .inr ⟨ha, rfl⟩
    | drop s reason newer owner expires hs => exact .inl hs
    | requeue hl ha hs hn hg =>
      have hst := h.stamped (isActiveState_of_blocking (blocking_of_leaseLapsed hl))
      rw [hg hid] at hst
      cases hst
    | retry hx ha hcr hn hg =>
      have hst := h.stamped hx
      rw [hcr] at hst
      cases hst
    | result head hr hn hg => exact .inr ⟨rfl, h.stamped (by rw [hr]; rfl)⟩
    | complete next hp hm hn hx =>
      have hst := h.stamped (by rw [hp]; rfl)
      simp [mayPublish, hst] at hm
    | again hp => exact h
    | renew owner ho hn hx hg => exact h
  recovery now r r' h hid hr hg := by
    cases hr with
    | keep => exact h
    | keepPublishing hd => exact h
    | fail => exact .inl rfl
    | requeue hb ha hv =>
      have hst := h.stamped (isActiveState_of_blocking hb)
      rw [hg hv hid] at hst
      cases hst

/-- An effect that does not run or publish the generation `a`. -/
def Spares (a : String) : Effect → Prop
  | .start r => r.job.jobId ≠ a
  | .publish r => r.job.jobId ≠ a
  | .abort _ _ | .save _ => True

theorem watches_spares (a : String) : Watches JobRecord.Obsolete a (Spares a) where
  start _ h := h
  abort _ _ := trivial
  save _ _ _ _ := trivial
  publish r hp hc h he := by
    have hst := (h he).stamped (by rw [hp]; rfl)
    rw [hc] at hst
    cases hst

/-! ## The lease pass -/

theorem lapsedRecord_frame {r' : JobRecord}
    (h : lapsedRecord o m r now = .ok r') : r'.job = r.job ∧ r'.blocking = false := by
  unfold lapsedRecord at h
  split at h
  · split at h
    · obtain ⟨a, ha, rfl⟩ := Except.of_map_ok h
      obtain ⟨-, -, rfl⟩ := withState_ok ha
      exact ⟨rfl, rfl⟩
    · obtain ⟨a, ha, rfl⟩ := Except.of_map_ok h
      obtain ⟨-, -, rfl⟩ := withState_ok ha
      exact ⟨rfl, rfl⟩
  · obtain ⟨a, ha, rfl⟩ := Except.of_map_ok h
    obtain ⟨-, -, rfl⟩ := withState_ok ha
    exact ⟨rfl, rfl⟩

/-- If the lease of the stamped generation `a` has lapsed, a live newer sibling is at hand, which the
lease pass leaves alone. -/
def Outlived (o : SchedulerOptions) (now : Number) (a : String) (m : Map String JobRecord) : Prop :=
  ∀ r, m.get? a = some r → r.cancelRequested = true → leaseLapsed r now = true →
    r.attempt < o.maxAttempts →
    ∃ j x, m.get? j = some x ∧ supersedes r x = true ∧ x.blocking = false

theorem leasePass_barred (o : SchedulerOptions) (now : Number) (a : String) :
    LeasePass (Guards.barred a) o now (fun m => Keyed m ∧ Outlived o now a m) where
  guard m j r hJ hj hl ha hs hid := by
    obtain ⟨hk, hout⟩ := hJ
    cases hc : r.cancelRequested with
    | false => rfl
    | true =>
      have hja : j = a := (hk j r hj).symm.trans hid
      obtain ⟨i, x, hi, hx, -⟩ := hout r (hja ▸ hj) hc hl ha
      have : (findSupersedingSibling m r).isSome = true :=
        findSupersedingSibling_isSome.mpr ⟨x, Map.mem_values_iff.mpr ⟨i, hi⟩, hx⟩
      rw [hs] at this
      cases this
  keeps m j r r' hJ hj hl hr' := by
    obtain ⟨hk, hout⟩ := hJ
    obtain ⟨hjob, hnb⟩ := lapsedRecord_frame hr'
    refine ⟨hk.set (by rw [hjob, hk j r hj]), fun y hy hc hly ha => ?_⟩
    rw [Map.get?_set] at hy
    split at hy
    · cases hy
      rw [blocking_of_leaseLapsed hly] at hnb
      cases hnb
    · obtain ⟨i, x, hi, hx, hxb⟩ := hout y hy hc hly ha
      refine ⟨i, x, ?_, hx, hxb⟩
      rw [Map.get?_set_ne, hi]
      -- the sibling is not blocking, so the pass does not touch it
      rintro rfl
      rw [hj] at hi
      cases hi
      rw [blocking_of_leaseLapsed hl] at hxb
      cases hxb

/-! ## Runs -/

/-- The label does not requeue the stamped generation `a`: no scheduling pass finds its lease lapsed,
with attempts left, while no live record is newer; and no recovery finds it to be requeued. -/
def Barred (o : SchedulerOptions) (a : String) (c : Controller) (l : Label) : Prop :=
  match l.event with
  | .tick | .shutdown _ | .drainStep _ =>
    ∀ r ∈ c.records.get? a, r.cancelRequested = true → leaseLapsed r l.now = true →
      r.attempt < o.maxAttempts → (findSupersedingSibling c.records r).isSome = true
  | .recover =>
    ∀ r ∈ (lastSaved c.log).records, r.job.jobId = a → r.cancelRequested = true →
      recoveryVerdict l.now o.maxAttempts r ≠ .requeue
  | _ => True

instance (o : SchedulerOptions) (a : String) (c : Controller) (l : Label) :
    Decidable (Barred o a c l) := by
  delta Barred
  rcases l with ⟨_ | _, now, store, crash⟩ <;> infer_instance

theorem outlived_of_exclusive (hk : Keyed c.records)
    (hx : ∀ prKey, c.records.count (fun r => r.prKey = prKey && r.blocking) ≤ 1)
    (h : ∀ r ∈ c.records.get? a, r.cancelRequested = true → leaseLapsed r now = true →
      r.attempt < o.maxAttempts → (findSupersedingSibling c.records r).isSome = true) :
    Outlived o now a c.records := by
  intro r hr hc hl ha
  obtain ⟨x, hx', hs⟩ := findSupersedingSibling_isSome.mp (h r hr hc hl ha)
  obtain ⟨hkey, hne⟩ := supersedes_frame hs
  refine ⟨x.job.jobId, x, get?_of_mem_values hk hx', hs, ?_⟩
  cases hb : x.blocking with
  | false => rfl
  | true =>
    -- two blocking generations of one pull request
    have hrb := blocking_of_leaseLapsed hl
    have he : r = x := eq_of_countP_le_one (hx r.prKey) (Map.mem_values_iff.mpr ⟨a, hr⟩)
      (by simp [hrb]) hx' (by simp [hb, hkey])
    rw [he] at hne
    exact absurd rfl hne

theorem tickGuard_barred (h : Keyed c.records ∧ Outlived o now a c.records) :
    TickGuard (Guards.barred a) o now c :=
  ⟨⟨_, leasePass_barred o now a, h⟩, fun _ => True,
    ⟨fun _ _ _ _ _ => trivial, fun _ _ _ _ => trivial⟩, trivial⟩

theorem eventGuard_barred (hk : Keyed c.records)
    (hx : ∀ prKey, c.records.count (fun r => r.prKey = prKey && r.blocking) ≤ 1)
    (hl : Barred o a c l) : EventGuard (Guards.barred a) o l.now c l.event := by
  unfold Barred at hl
  cases he : l.event with
  | tick | shutdown | drainStep =>
    rw [he] at hl
    exact tickGuard_barred ⟨hk, outlived_of_exclusive hk hx hl⟩
  | settleDone => exact trivial
  | heartbeat | adoptRecovered => exact fun _ _ _ => trivial
  | resolveRecovered | publishSettled => exact fun _ _ => trivial
  | enqueue | executorSettled => exact fun _ _ _ _ => trivial
  | recover =>
    rw [he] at hl
    refine ⟨fun r hr hv hid => ?_, trivial⟩
    cases hc : r.cancelRequested with
    | false => rfl
    | true => exact absurd hv (hl r hr hid hc)

/-- The state after an enqueue that returned, in a process that lives on. -/
theorem step_enqueue {job : Value} (he : l.event = .enqueue job)
    (hc : l.crash = none) : step o c l = (enqueue o l.store l.now job).final c := by
  have hexec : exec o l.store l.now l.event = enqueue o l.store l.now job >>= fun _ => pure ⟨⟩ := by
    rw [he]; rfl
  unfold step
  rw [hc, hexec]
  change Action.final (EStateM.bind _ _) c = _
  unfold Action.final EStateM.bind
  cases enqueue o l.store l.now job c <;> rfl

theorem not_completed_of_obsolete (h : r.Obsolete) : r.state ≠ .completed := by
  rintro hs
  rcases h with h | ⟨h, -⟩ <;> rw [hs] at h <;> cases h

/-- **Supersession is final.** Once an enqueue under its `prKey` has been accepted, the older
generation `a` is obsolete in memory and in the store, it is not completed, and since then it has been
neither started nor published, in every run whose labels are barred. -/
theorem superseded_run {pre post : List Label} {l : Label} {job : Value} {validated : ReviewJob}
    {result : EnqueueResult} {a : String} {r : JobRecord} (he : l.event = .enqueue job)
    (hc : l.crash = none) (hjob : validateReviewJob job = some validated)
    (hv : (enqueue o l.store l.now job).value? (run o fresh pre) = some result)
    (hd : result.disposition ≠ .duplicate) (hr : (run o fresh pre).records.get? a = some r)
    (hkey : r.prKey = prIdentityKey validated) (ht : r.terminal = false)
    (hb : Along o (Barred o a) (run o fresh (pre ++ [l])) post) :
    Lasts JobRecord.Obsolete a (Spares a) (run o fresh (pre ++ [l])).log
        (run o fresh (pre ++ [l] ++ post)) ∧
      ∀ r', (run o fresh (pre ++ [l] ++ post)).records.get? a = some r' →
        r'.state ≠ .completed := by
  have hstep : run o fresh (pre ++ [l]) = (enqueue o l.store l.now job).final (run o fresh pre) := by
    rw [run_append]
    exact step_enqueue he hc
  -- right after the enqueue
  have hacc : Accepted (run o fresh pre) (prIdentityKey validated) (run o fresh (pre ++ [l])) := by
    have hm : Moves (Atomic Guards.none o l.now) (run o fresh pre)
        (enqueue o l.store l.now job) _ :=
      enqueue_moves (keyed_run o pre) fun _ _ _ _ => trivial
    rcases hm.value hv with hdup | ⟨v, hjob', hacc⟩
    · exact absurd hdup hd
    · rw [hstep]
      rw [hjob] at hjob'
      cases hjob'
      exact hacc
  obtain ⟨r₁, hr₁, hobs⟩ := hacc.obsolete a r hr hkey ht
  have hsaved : (saved (run o fresh (pre ++ [l])).log).get? a = some r₁ := by
    rw [get?_saved (savedOk_run o _), hacc.saved]
    exact ⟨Map.mem_values_iff.mpr ⟨a, hr₁⟩, keyed_run o _ a r₁ hr₁⟩
  -- and ever after
  have hall : Lasts JobRecord.Obsolete a (Spares a) (run o fresh (pre ++ [l])).log
      (run o fresh (pre ++ [l] ++ post)) := by
    rw [run_append o fresh (pre ++ [l]) post]
    refine run_invariant (G := fun _ => Guards.barred a) (keyed_run o _)
      ⟨⟨r₁, hr₁, hobs⟩, ⟨r₁, hsaved, hobs⟩, Since.refl _ _⟩ (hb.and (along_reached o _ post))
      (fun _ _ _ hk hi hs => hi.atomic (stays_obsolete a) (watches_spares a) hk hs)
      (fun _ _ _ _ _ hi => hi.boot) fun c l' hk hi hl => ?_
    obtain ⟨hbar, ms, rfl⟩ := hl
    exact eventGuard_barred hk (fun key => (exclusive_run o ms key).1) hbar
  refine ⟨hall, fun r' hr' => ?_⟩
  obtain ⟨x, hx, hobs'⟩ := hall.memory
  rw [hr'] at hx
  cases hx
  exact not_completed_of_obsolete hobs'

/-- The lease of the older generation lapses while the newer one waits: it ends as superseded. -/
theorem superseded_run_lapsed :
    let pre := [(enqueueOf "a").at 0, Event.tick.at 0]
    let l := (enqueueOf "b").at 1
    let post := [Event.tick.at 20]
    dispatches (run exampleOptions fresh (pre ++ [l] ++ post)).log =
        [("b", "lease-b-2"), ("a", "lease-a-1")] ∧
      Lasts JobRecord.Obsolete "a" (Spares "a") (run exampleOptions fresh (pre ++ [l])).log
        (run exampleOptions fresh (pre ++ [l] ++ post)) := by
  intro pre l post
  have hr : ∃ r, (run exampleOptions fresh pre).records.get? "a" = some r ∧
      r.prKey = prIdentityKey (exampleJob "b") ∧ r.terminal = false := by
    refine ⟨((run exampleOptions fresh pre).records.get? "a").get (by decide +kernel), ?_, ?_, ?_⟩
    · rw [Option.some_get]
    · decide +kernel
    · decide +kernel
  obtain ⟨r, hr, hkey, ht⟩ := hr
  have he : l.event = .enqueue (jobValue (exampleJob "b")) := rfl
  have hjob : validateReviewJob (jobValue (exampleJob "b")) = some (exampleJob "b") := by
    decide +kernel
  have hv : (enqueue exampleOptions l.store l.now (jobValue (exampleJob "b"))).value?
      (run exampleOptions fresh pre) = some ⟨.supersededRunning, "b"⟩ := by decide +kernel
  have hb : Along exampleOptions (Barred exampleOptions "a")
      (run exampleOptions fresh (pre ++ [l])) post := by decide +kernel
  exact ⟨by decide +kernel, (superseded_run he rfl hjob hv (by decide) hr hkey ht hb).1⟩

/-- **An obsolete generation comes back**: `a` is enqueued at the time of `b`, which runs, and is the
smaller id. When the lease of `b` lapses, `b` is requeued and started again in place of `a`. -/
theorem superseded_revived :
    let ls := [(enqueueOf "b").at 0, Event.tick.at 0, (enqueueOf "a").at 0]
    (enqueue exampleOptions .committed 0 (jobValue (exampleJob "a"))).value?
        (run exampleOptions fresh [(enqueueOf "b").at 0, Event.tick.at 0]) =
        some ⟨.supersededRunning, "a"⟩ ∧
      (run exampleOptions fresh ls).records.values.map (fun r => (r.job.jobId, r.cancelRequested)) =
        [("b", true), ("a", false)] ∧
      dispatches (run exampleOptions fresh (ls ++ [Event.tick.at 20])).log =
        [("b", "lease-b-2"), ("b", "lease-b-1")] := by
  decide +kernel

end PrReviewer.Queue
