import PrReviewer.Queue.Store

/-!
# Restart recovery of a stored snapshot

`reconcileRecoveredSnapshot` takes what a store returned. It passes the elements that it does not touch
through as they are and rebuilds the others from their validated records, so its result mixes both
(`adopt`). `Store` has the same function on a snapshot that was rebuilt as a whole; on the value of such
a snapshot the two agree (`reconcileRecoveredValue_snapshotValue`).

- `parseSnapshotRecords_ok`: which elements parse to which records.
- `reconcileRecord_idem`: recovery at one time is idempotent.
-/

open Js Number List

namespace PrReviewer.Queue

variable {now : Number} {n : Nat}

/-! ## Recovery of values -/

/-- What recovery makes of an element that was validated as `rebuilt`. -/
def adopt (nowMs : Number) (maxAttempts : Nat) (element : Value) (rebuilt : JobRecord) : Value :=
  if recoveryVerdict nowMs maxAttempts rebuilt = .keep then element
  else recordValue (reconcileRecord nowMs maxAttempts rebuilt)

structure RecoveredValue where
  snapshot : Value
  requeued : List String
  failed : List String

def reconcileRecoveredValue (snapshot : Value) (nowMs : Number) (maxAttempts : Nat) :
    Except Exn RecoveredValue :=
  if !nowMs.isFinite then
    .error (rangeError ("nowMs must be a finite number, got " ++ nonFiniteName nowMs))
  else if maxAttempts < 1 then
    .error (rangeError ("maxAttempts must be a positive integer, got " ++ toString maxAttempts))
  else
    match checkSnapshotEnvelope snapshot with
    | .error e => .error e
    | .ok raw =>
      match parseSnapshotRecords [] raw with
      | .error e => .error e
      | .ok rebuilt => .ok {
          snapshot := .object [("version", .number 1),
            ("records", .array (List.zipWith (adopt nowMs maxAttempts) raw rebuilt))]
          requeued := movedJobIds nowMs maxAttempts .requeue rebuilt
          failed := movedJobIds nowMs maxAttempts .fail rebuilt }

variable {records : List JobRecord} {raw : List Value} {element : Value} {r : JobRecord}

/-- On the value of a snapshot recovery is that of `Store`. -/
theorem reconcileRecoveredValue_snapshotValue {rec : Reconciled}
    (hn : 1 ≤ n) (h : reconcileRecoveredSnapshot ⟨records⟩ now n = .ok rec) :
    reconcileRecoveredValue (snapshotValue records) now n =
      .ok ⟨snapshotValue rec.snapshot.records, rec.requeued, rec.failed⟩ := by
  unfold reconcileRecoveredSnapshot at h
  split at h
  · cases h
  · next hfin =>
    split at h
    · cases h
    · next rebuilt hp =>
      obtain ⟨rfl, hok⟩ := parseQueueSnapshot_snapshotValue.mp hp
      cases h
      have hadopt : List.zipWith (adopt now n) (records.map recordValue) records =
          (records.map (reconcileRecord now n)).map recordValue := by
        rw [zipWith_map_left, zipWith_self, map_map]
        refine map_congr_left fun r _ => ?_
        unfold adopt
        split
        · next hv => simp only [Function.comp_apply, reconcileRecord, hv]
        · rfl
      rw [reconcileRecoveredValue, if_neg hfin, if_neg (by omega), checkSnapshotEnvelope_snapshotValue]
      dsimp only
      rw [parseSnapshotRecords_map.mpr ⟨rfl, hok.record, hok.distinct, by simp⟩]
      dsimp only
      rw [hadopt]
      rfl

/-! ## Which elements parse -/

theorem parseSnapshotRecords_ok {seen : List String} {out : List JobRecord} :
    parseSnapshotRecords seen raw = .ok out ↔
      List.Forall₂ (fun e r => parseJobRecord e = some r) raw out ∧
        (∀ r ∈ out, r.prKey = prIdentityKey r.job) ∧ (out.map (·.job.jobId)).Nodup ∧
        ∀ r ∈ out, r.job.jobId ∉ seen := by
  induction raw generalizing seen out with
  | nil =>
    rw [parseSnapshotRecords, Except.ok.injEq, forall₂_nil_left_iff]
    constructor
    · rintro rfl
      simp
    · exact fun h => h.1.symm
  | cons element rest ih =>
    rw [parseSnapshotRecords]
    cases hp : parseJobRecord element with
    | none => simp [forall₂_cons_left_iff, hp]
    | some r =>
      dsimp only
      constructor
      · intro h
        split at h
        · cases h
        · next hkey =>
          split at h
          · cases h
          · next hseen =>
            split at h
            · cases h
            · next records hrest =>
              cases h
              obtain ⟨hall, hkeys, hnodup, hfresh⟩ := ih.mp hrest
              refine ⟨.cons hp hall, ?_, ?_, ?_⟩
              · exact forall_mem_cons.mpr ⟨not_not.mp hkey, hkeys⟩
              · refine nodup_cons.mpr ⟨fun hm => ?_, hnodup⟩
                obtain ⟨x, hx, he⟩ := mem_map.mp hm
                exact hfresh x hx (by simp [he])
              · refine forall_mem_cons.mpr ⟨by simpa using hseen, fun x hx hm => ?_⟩
                exact hfresh x hx (mem_cons_of_mem _ hm)
      · rintro ⟨hall, hkeys, hnodup, hfresh⟩
        obtain ⟨r', records, hr', hrest, rfl⟩ := forall₂_cons_left_iff.mp hall
        obtain rfl := Option.some.inj (hp.symm.trans hr')
        obtain ⟨hkey, hkeys⟩ := forall_mem_cons.mp hkeys
        obtain ⟨hseen, hfresh⟩ := forall_mem_cons.mp hfresh
        obtain ⟨hnew, hnodup⟩ := nodup_cons.mp hnodup
        have hmem : ∀ x ∈ records, x.job.jobId ∉ r.job.jobId :: seen := by
          intro x hx hm
          rcases mem_cons.mp hm with he | hm
          · exact hnew (mem_map.mpr ⟨x, hx, he⟩)
          · exact hfresh x hx hm
        rw [if_neg (not_not.mpr hkey), if_neg (by simpa using hseen),
          ih.mpr ⟨hrest, hkeys, hnodup, hmem⟩]

theorem parseJobRecord_ok (h : parseJobRecord element = some r) :
    validJob r.job = true ∧ validTimes r = true := by
  rw [parseJobRecord, Option.filter_eq_some_iff] at h
  refine ⟨?_, h.2⟩
  have hread := h.1
  rw [readRecord] at hread
  obtain ⟨job, hjob, hrest⟩ := Option.bind_eq_some_iff.mp hread
  have hvalid : validJob job = true := by
    rw [validateReviewJob, Option.filter_eq_some_iff] at hjob
    exact hjob.2
  have hr : r.job = job := by
    -- the thirteen fields after the job
    iterate 13 obtain ⟨_, -, hrest⟩ := Option.bind_eq_some_iff.mp hrest
    exact congrArg JobRecord.job (Option.some.inj hrest).symm
  rw [hr]
  exact hvalid

/-! ## One record -/

theorem parseJobRecord_adopt (hnow : IsTime now)
    (h : parseJobRecord element = some r) :
    parseJobRecord (adopt now n element r) = some (reconcileRecord now n r) := by
  unfold adopt
  split
  · next hv =>
    rw [h, reconcileRecord, hv]
  · next hv =>
    obtain ⟨hjob, htimes⟩ := parseJobRecord_ok h
    rw [parseJobRecord_recordValue, if_pos]
    obtain ⟨he, hr, hretry, -, hu⟩ := validTimes_iff.mp htimes
    refine ⟨by rw [(reconcileRecord_frame now n r).1, hjob], validTimes_iff.mpr ?_⟩
    have hzero : IsTime 0 := by decide
    cases hv' : recoveryVerdict now n r with
    | keep => exact absurd hv' hv
    | keepPublishing =>
      simp only [reconcileRecord, hv']
      exact ⟨he, hr, hretry, hzero, hnow⟩
    | requeue =>
      simp only [reconcileRecord, hv']
      exact ⟨he, hnow, hzero, hzero, hnow⟩
    | fail =>
      simp only [reconcileRecord, hv']
      exact ⟨he, hr, hretry, hzero, hnow⟩

/-- A record that has lost its lease is not active after recovery, or holds its durable result. -/
theorem reconcileRecord_settled (now : Number) (n : Nat) (r : JobRecord) :
    let r' := reconcileRecord now n r
    isActiveState r'.state = true → leaseGone r' now = true → r'.durable = true := by
  dsimp only
  cases hv : recoveryVerdict now n r with
  | keep =>
    rw [reconcileRecord, hv]
    intro hactive hgone
    rw [recoveryVerdict, if_neg (by simp [hactive]), if_neg (by simp [hgone])] at hv
    by_contra hdurable
    rw [if_neg (by simpa [JobRecord.durable] using hdurable)] at hv
    split at hv <;> cases hv
  | keepPublishing =>
    obtain ⟨hd, -⟩ | ⟨-, -, hv'⟩ | ⟨-, hv'⟩ := durable_or_blocking (by rw [hv]; simp)
    · rw [reconcileRecord, hv]
      exact fun _ _ => hd
    · rw [hv] at hv'; cases hv'
    · rw [hv] at hv'; cases hv'
  | requeue =>
    rw [reconcileRecord, hv]
    exact fun hactive => nomatch hactive
  | fail =>
    rw [reconcileRecord, hv]
    exact fun hactive => nomatch hactive

/-- After recovery there is nothing to move at the same time. -/
theorem recoveryVerdict_reconcileRecord (now : Number) (n : Nat) (r : JobRecord) :
    recoveryVerdict now n (reconcileRecord now n r) = .keep ∨
      recoveryVerdict now n r = .keepPublishing ∧
        recoveryVerdict now n (reconcileRecord now n r) = .keepPublishing := by
  cases hv : recoveryVerdict now n r with
  | keep => exact .inl (by rw [reconcileRecord, hv]; exact hv)
  | keepPublishing =>
    refine .inr ⟨rfl, ?_⟩
    obtain ⟨hd, -⟩ | ⟨-, -, hv'⟩ | ⟨-, hv'⟩ := durable_or_blocking (by rw [hv]; simp)
    · simp only [JobRecord.durable, Bool.and_eq_true, decide_eq_true_eq] at hd
      rw [reconcileRecord, hv]
      simp [recoveryVerdict, JobRecord.unleased, leaseGone, hd.1, hd.2, isActiveState]
    · rw [hv] at hv'; cases hv'
    · rw [hv] at hv'; cases hv'
  | requeue => exact .inl (by rw [reconcileRecord, hv]; rfl)
  | fail => exact .inl (by rw [reconcileRecord, hv]; rfl)

theorem reconcileRecord_idem (now : Number) (n : Nat) (r : JobRecord) :
    reconcileRecord now n (reconcileRecord now n r) = reconcileRecord now n r := by
  obtain hv | ⟨hv, hv'⟩ := recoveryVerdict_reconcileRecord now n r
  · rw [reconcileRecord, hv]
  · rw [reconcileRecord, hv']
    rw [reconcileRecord, hv]
    rfl

theorem adopt_adopt (now : Number) (n : Nat) (element : Value) (r : JobRecord) :
    adopt now n (adopt now n element r) (reconcileRecord now n r) = adopt now n element r := by
  obtain hv | ⟨hv, hv'⟩ := recoveryVerdict_reconcileRecord now n r
  · rw [adopt, if_pos hv]
  · rw [adopt, if_neg (by simp [hv']), reconcileRecord_idem, adopt, if_neg (by simp [hv])]

theorem requeue_iff : recoveryVerdict now n r = .requeue ↔
    r.state ≠ .queued ∧ (reconcileRecord now n r).state = .queued := by
  constructor
  · intro hv
    refine ⟨fun hq => ?_, by rw [reconcileRecord, hv]⟩
    simp [recoveryVerdict, hq, isActiveState] at hv
  · rintro ⟨hr, hr'⟩
    cases hv : recoveryVerdict now n r with
    | keep => rw [reconcileRecord, hv] at hr'; exact absurd hr' hr
    | keepPublishing => rw [reconcileRecord, hv] at hr'; exact absurd hr' hr
    | requeue => rfl
    | fail => rw [reconcileRecord, hv] at hr'; cases hr'

theorem fail_iff : recoveryVerdict now n r = .fail ↔
    r.state ≠ .failed ∧ (reconcileRecord now n r).state = .failed := by
  constructor
  · intro hv
    refine ⟨fun hf => ?_, by rw [reconcileRecord, hv]⟩
    simp [recoveryVerdict, hf, isActiveState] at hv
  · rintro ⟨hr, hr'⟩
    cases hv : recoveryVerdict now n r with
    | keep => rw [reconcileRecord, hv] at hr'; exact absurd hr' hr
    | keepPublishing => rw [reconcileRecord, hv] at hr'; exact absurd hr' hr
    | requeue => rw [reconcileRecord, hv] at hr'; cases hr'
    | fail => rfl

/-! ## The snapshot -/

/-- `ids` are the jobs of the records that recovery brought into `state`, each once. -/
def Reports (records records' : List JobRecord) (state : JobLifecycleState) (ids : List String) :
    Prop :=
  ids.Nodup ∧ ∀ id, id ∈ ids ↔ ∃ (i : Nat) (r r' : JobRecord), records[i]? = some r ∧
    records'[i]? = some r' ∧ r.job.jobId = id ∧ r.state ≠ state ∧ r'.state = state

/-- What recovery at `now` makes of the elements `raw` with the records `records`. -/
structure Recovers (now : Number) (raw : List Value) (records : List JobRecord) (raw' : List Value)
    (records' : List JobRecord) (requeued failed : List String) : Prop where
  jobs : records'.map (·.job) = records.map (·.job)
  untouched : ∀ (i : Nat) (r : JobRecord), records[i]? = some r →
    isActiveState r.state = false ∨ leaseGone r now = false →
    raw'[i]? = raw[i]? ∧ records'[i]? = some r
  leased : ∀ r ∈ records', r.working = true ∨ r.state = .publishing ∧ r.resultHeadSha = "" →
    leaseGone r now = false
  requeued : Reports records records' .queued requeued
  failed : Reports records records' .failed failed

theorem movedJobIds_reports {v : RecoveryVerdict}
    {state : JobLifecycleState} (hnodup : (records.map (·.job.jobId)).Nodup)
    (hv : ∀ r, recoveryVerdict now n r = v ↔
      r.state ≠ state ∧ (reconcileRecord now n r).state = state) :
    Reports records (records.map (reconcileRecord now n)) state (movedJobIds now n v records) := by
  have hperm := perm_insertionSort (fun a b => !strLt b a)
    ((records.filter (fun r => recoveryVerdict now n r = v)).map (·.job.jobId))
  constructor
  · refine hperm.nodup_iff.mpr (hnodup.sublist ?_)
    exact filter_sublist.map _
  · intro id
    rw [movedJobIds, hperm.mem_iff, mem_map]
    constructor
    · rintro ⟨r, hr, rfl⟩
      rw [mem_filter, decide_eq_true_eq] at hr
      obtain ⟨i, hi⟩ := List.getElem?_of_mem hr.1
      exact ⟨i, r, _, hi, by rw [List.getElem?_map, hi]; rfl, rfl, (hv r).mp hr.2⟩
    · rintro ⟨i, r, r', hi, hi', rfl, hmoved⟩
      rw [List.getElem?_map, hi] at hi'
      obtain rfl := Option.some.inj hi'
      refine ⟨r, mem_filter.mpr ⟨mem_of_getElem? hi, ?_⟩, rfl⟩
      exact decide_eq_true ((hv r).mpr hmoved)

theorem recovers (hlen : raw.length = records.length)
    (hnodup : (records.map (·.job.jobId)).Nodup) :
    Recovers now raw records (List.zipWith (adopt now n) raw records)
      (records.map (reconcileRecord now n)) (movedJobIds now n .requeue records)
      (movedJobIds now n .fail records) where
  jobs := by
    rw [map_map]
    exact map_congr_left fun r _ => (reconcileRecord_frame now n r).1
  untouched i r hi hr := by
    have hv : recoveryVerdict now n r = .keep := by
      rw [recoveryVerdict]
      rcases hr with hr | hr
      · rw [if_pos (by simp [hr])]
      · split
        · rfl
        · rw [if_pos (by simp [hr])]
    have hlt : i < raw.length := hlen ▸ (List.getElem?_eq_some_iff.mp hi).1
    constructor
    · rw [List.getElem?_zipWith, List.getElem?_eq_getElem hlt, hi]
      simp [adopt, hv]
    · rw [List.getElem?_map, hi, Option.map_some, reconcileRecord, hv]
  leased r hr hstate := by
    obtain ⟨x, -, rfl⟩ := mem_map.mp hr
    by_contra hgone
    rw [Bool.not_eq_false] at hgone
    rcases hstate with hworking | ⟨hpub, hresult⟩
    · have hd := reconcileRecord_settled now n x (isActiveState_of_working hworking) hgone
      simp only [JobRecord.durable, Bool.and_eq_true, decide_eq_true_eq] at hd
      simp [JobRecord.working, hd.1] at hworking
    · have hd := reconcileRecord_settled now n x (by rw [hpub]; rfl) hgone
      simp [JobRecord.durable, hresult] at hd
  requeued := movedJobIds_reports hnodup fun _ => requeue_iff
  failed := movedJobIds_reports hnodup fun _ => fail_iff

theorem parse_adopt (hnow : IsTime now) {raw : List Value} {records : List JobRecord}
    (h : List.Forall₂ (fun e r => parseJobRecord e = some r) raw records) :
    List.Forall₂ (fun e r => parseJobRecord e = some r) (List.zipWith (adopt now n) raw records)
      (records.map (reconcileRecord now n)) := by
  induction h with
  | nil => exact .nil
  | cons h _ ih => exact .cons (parseJobRecord_adopt hnow h) ih

theorem adopt_again (raw : List Value) (records : List JobRecord) :
    List.zipWith (adopt now n) (List.zipWith (adopt now n) raw records)
      (records.map (reconcileRecord now n)) = List.zipWith (adopt now n) raw records := by
  induction raw generalizing records with
  | nil => rfl
  | cons element raw ih =>
    cases records with
    | nil => rfl
    | cons r records =>
      simp only [zipWith_cons_cons, map_cons, adopt_adopt, ih]

theorem movedJobIds_again (records : List JobRecord) {v : RecoveryVerdict} (hk : v ≠ .keep)
    (hp : v ≠ .keepPublishing) :
    movedJobIds now n v (records.map (reconcileRecord now n)) = [] := by
  have hnone : (records.map (reconcileRecord now n)).filter
      (fun r => recoveryVerdict now n r = v) = [] := by
    refine filter_eq_nil_iff.mpr fun r hr => ?_
    obtain ⟨x, -, rfl⟩ := mem_map.mp hr
    rw [decide_eq_true_eq]
    rintro hv
    obtain hv' | ⟨-, hv'⟩ := recoveryVerdict_reconcileRecord now n x
    · exact hk (hv.symm.trans hv')
    · exact hp (hv.symm.trans hv')
  rw [movedJobIds, hnone]
  rfl

theorem checkSnapshotEnvelope_records (elements : List Value) : checkSnapshotEnvelope
    (.object [("version", .number 1), ("records", .array elements)]) = .ok elements := by
  have h1 : ((1 : Number) == 1) = true := by decide
  simp [checkSnapshotEnvelope, Value.get, lookup_cons, h1]

/-- Recovery of elements that parse. -/
theorem reconcileRecoveredValue_ok {snapshot : Value}
    (hnow : IsTime now) (hmax : 1 ≤ n) (henvelope : checkSnapshotEnvelope snapshot = .ok raw)
    (hparse : parseSnapshotRecords [] raw = .ok records) :
    reconcileRecoveredValue snapshot now n = .ok {
      snapshot := .object [("version", .number 1),
        ("records", .array (List.zipWith (adopt now n) raw records))]
      requeued := movedJobIds now n .requeue records
      failed := movedJobIds now n .fail records } := by
  rw [reconcileRecoveredValue, if_neg (by simp [hnow.1]), if_neg (by omega), henvelope]
  dsimp only
  rw [hparse]

/-- Recovery accepts every snapshot that the parser accepts, and what it returns is accepted again. It
keeps the jobs in their order and leaves untouched what it must not move; and at the same time there is
nothing left to move. -/
theorem recovery_sound {snapshot : Value} {s : QueueSnapshot} {nowMs : Number} {maxAttempts : Nat}
    (hs : parseQueueSnapshot snapshot = .ok s) (hnow : IsTime nowMs) (hmax : 1 ≤ maxAttempts) :
    ∃ (out : RecoveredValue) (s' : QueueSnapshot) (raw raw' : List Value),
      reconcileRecoveredValue snapshot nowMs maxAttempts = .ok out ∧
      parseQueueSnapshot out.snapshot = .ok s' ∧
      checkSnapshotEnvelope snapshot = .ok raw ∧ checkSnapshotEnvelope out.snapshot = .ok raw' ∧
      Recovers nowMs raw s.records raw' s'.records out.requeued out.failed ∧
      reconcileRecoveredValue out.snapshot nowMs maxAttempts = .ok ⟨out.snapshot, [], []⟩ := by
  rw [parseQueueSnapshot] at hs
  split at hs
  · cases hs
  · next raw henvelope =>
    split at hs
    · cases hs
    · next records hparse =>
      cases hs
      obtain ⟨hall, hkeys, hnodup, -⟩ := parseSnapshotRecords_ok.mp hparse
      have henvelope' := checkSnapshotEnvelope_records
        (List.zipWith (adopt nowMs maxAttempts) raw records)
      have hparse' : parseSnapshotRecords [] (List.zipWith (adopt nowMs maxAttempts) raw records) =
          .ok (records.map (reconcileRecord nowMs maxAttempts)) := by
        refine parseSnapshotRecords_ok.mpr ⟨parse_adopt hnow hall, ?_, ?_, by simp⟩
        · intro r hr
          obtain ⟨x, hx, rfl⟩ := mem_map.mp hr
          obtain ⟨hjob, hkey, -⟩ := reconcileRecord_frame nowMs maxAttempts x
          rw [hjob, hkey, hkeys x hx]
        · have hids : (records.map (reconcileRecord nowMs maxAttempts)).map (·.job.jobId) =
              records.map (·.job.jobId) := by
            rw [map_map]
            refine map_congr_left fun r _ => ?_
            rw [Function.comp_apply, (reconcileRecord_frame nowMs maxAttempts r).1]
          rw [hids]
          exact hnodup
      refine ⟨_, ⟨records.map (reconcileRecord nowMs maxAttempts)⟩, raw, _,
        reconcileRecoveredValue_ok hnow hmax henvelope hparse, ?_, henvelope, henvelope',
        recovers hall.length_eq hnodup, ?_⟩
      · rw [parseQueueSnapshot, henvelope']
        dsimp only
        rw [hparse']
      · rw [reconcileRecoveredValue_ok hnow hmax henvelope' hparse', adopt_again,
          movedJobIds_again records (by simp) (by simp), movedJobIds_again records (by simp) (by simp)]

/-- A snapshot with one abandoned record, which goes back to the queue. -/
def abandoned : JobRecord where
  job := {
    jobId := "job-1", kind := .review, trigger := .webhook, reason := "opened",
    platform := .github, installationId := "", repoFullName := "o/r", prNumber := 1, prId := 1,
    headSha := "abcdef0", baseSha := "", configFingerprint := "", nonce := "",
    adoptionEpoch := "", eventReference := "", forgeIntegration := "", fork := false,
    deadlineAtMs := 0, runId := "" }
  prKey := "github//o/r#1/review"
  state := .running
  enqueuedAtMs := 0
  readyAtMs := 0
  attempt := 1
  nextRetryAtMs := 0
  leaseOwner := "worker"
  leaseExpiresAtMs := 5
  cancelRequested := false
  resultHeadSha := ""
  failureReason := ""
  supersededByJobId := ""
  updatedAtMs := 0

theorem recovery_sound_abandoned :
    ∃ (out : RecoveredValue) (s' : QueueSnapshot) (raw raw' : List Value),
      reconcileRecoveredValue (snapshotValue [abandoned]) 10 3 = .ok out ∧
      parseQueueSnapshot out.snapshot = .ok s' ∧
      checkSnapshotEnvelope (snapshotValue [abandoned]) = .ok raw ∧
      checkSnapshotEnvelope out.snapshot = .ok raw' ∧
      Recovers 10 raw [abandoned] raw' s'.records out.requeued out.failed ∧
      reconcileRecoveredValue out.snapshot 10 3 = .ok ⟨out.snapshot, [], []⟩ := by
  have hok : SnapshotOk [abandoned] := by
    refine ⟨fun r hr => ?_, by simp⟩
    obtain rfl := mem_singleton.mp hr
    exact ⟨by decide +kernel, by decide +kernel, by decide +kernel⟩
  exact recovery_sound (parseQueueSnapshot_snapshotValue.mpr ⟨rfl, hok⟩) (by decide +kernel)
    (by decide)

end PrReviewer.Queue
