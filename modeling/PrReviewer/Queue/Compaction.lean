import Mathlib.Data.List.Lex
import Mathlib.Data.List.Perm.Subperm
import PrReviewer.Queue.Store

/-!
# Compaction of terminal records

`compactQueueSnapshot` (`src/queue/compaction.ts`) drops ended records from a snapshot, those of pull
requests without a live record only (`droppable`): first the ones that have aged out (`aged`), then the
oldest ones while more than the configured number are left (`capped`).

- **What goes** (`Compacts.dropped`): ended records that no live record protects; the others stay, in
  their order (`Compacts.kept`).
-/

open Js List

namespace PrReviewer.Queue

/-! ## The pass -/

structure CompactionOptions where
  nowMs : Number
  retentionMs : Number
  maxTerminalRecords : Number

section Compaction

-- `String(x)`, for the error messages
variable (numberName : Number → String)

def checkOptions (options : CompactionOptions) : Except Exn Unit :=
  if !options.nowMs.isFinite then
    .error (rangeError
      ("compaction: nowMs must be a finite number, got " ++ numberName options.nowMs))
  else if !options.retentionMs.isFinite || !Number.isInteger options.retentionMs ||
      decide (options.retentionMs < 1) then
    .error (rangeError
      ("compaction: retentionMs must be a positive integer, got " ++ numberName options.retentionMs))
  else if !options.maxTerminalRecords.isFinite || !Number.isInteger options.maxTerminalRecords ||
      decide (options.maxTerminalRecords < 0) then
    .error (rangeError
      ("compaction: maxTerminalRecords must be a non-negative integer, got " ++
        numberName options.maxTerminalRecords))
  else .ok ()

/-- A live record of the same pull request protects the record. -/
def activePrKey (records : List JobRecord) (prKey : String) : Bool :=
  records.any (fun r => !isTerminalState r.state && r.prKey = prKey)

def droppable (records : List JobRecord) : List JobRecord :=
  records.filter (fun r => isTerminalState r.state && !activePrKey records r.prKey)

/-- The droppable records that were last updated before the horizon. -/
def aged (options : CompactionOptions) (records : List JobRecord) : List JobRecord :=
  (droppable records).filter
    (fun r => decide (r.updatedAtMs < options.nowMs - options.retentionMs))

/-- `a` is dropped no later than `b`: by the time of the last update, then by job id. -/
def dropOrder (a b : JobRecord) : Bool :=
  decide (a.updatedAtMs < b.updatedAtMs) ||
    (!decide (b.updatedAtMs < a.updatedAtMs) && !strLt b.job.jobId a.job.jobId)

/-- The records that have not aged out, in the order in which the cap drops them. -/
def remaining (options : CompactionOptions) (records : List JobRecord) : List JobRecord :=
  ((droppable records).filter
    (fun r => !((aged options records).map (·.job.jobId)).contains r.job.jobId)).insertionSort
      (fun a b => dropOrder a b = true)

/-- The loop of the cap: `count` terminal records are left. -/
def capLoop (max : Nat) : Nat → List JobRecord → List JobRecord
  | _, [] => []
  | count, r :: rest => if count ≤ max then [] else r :: capLoop max (count - 1) rest

def terminalCount (records : List JobRecord) : Nat :=
  (records.filter (fun r => isTerminalState r.state)).length

/-- What the cap drops. -/
def capped (options : CompactionOptions) (records : List JobRecord) : List JobRecord :=
  capLoop (Number.toNat options.maxTerminalRecords)
    (terminalCount records - (aged options records).length) (remaining options records)

structure Compacted where
  snapshot : QueueSnapshot
  dropped : List String
  deriving DecidableEq

def compactQueueSnapshot (snapshot : QueueSnapshot) (options : CompactionOptions) :
    Except Exn Compacted := do
  checkOptions numberName options
  let validated ← parseQueueSnapshot (snapshotValue snapshot.records)
  let records := validated.records
  let droppedIds := (aged options records ++ capped options records).map (·.job.jobId)
  if droppedIds.isEmpty then return ⟨validated, []⟩
  else
    return {
      snapshot := ⟨records.filter (fun r => !droppedIds.contains r.job.jobId)⟩
      dropped := droppedIds.insertionSort (fun a b => !strLt b a) }

end Compaction

/-! ## What it drops -/

/-- The records that a compaction of `records` drops. -/
def droppedRecords (options : CompactionOptions) (records : List JobRecord) : List JobRecord :=
  aged options records ++ capped options records

/-- An accepted compaction: the snapshot is in order, and what is dropped is filtered out. -/
theorem compactQueueSnapshot_ok {numberName : Number → String} {s : QueueSnapshot}
    {options : CompactionOptions} {out : Compacted}
    (h : compactQueueSnapshot numberName s options = .ok out) :
    SnapshotOk s.records ∧
      out.snapshot.records = s.records.filter
        (fun r => !((droppedRecords options s.records).map (·.job.jobId)).contains r.job.jobId) ∧
      out.dropped.Perm ((droppedRecords options s.records).map (·.job.jobId)) := by
  unfold compactQueueSnapshot at h
  cases hc : checkOptions numberName options with
  | error e => rw [hc] at h; cases h
  | ok u =>
    rw [hc] at h
    dsimp only [bind, Except.bind] at h
    cases hp : parseQueueSnapshot (snapshotValue s.records) with
    | error e => rw [hp] at h; cases h
    | ok validated =>
      rw [hp] at h
      obtain ⟨rfl, hok⟩ := parseQueueSnapshot_snapshotValue.mp hp
      dsimp only at h
      refine ⟨hok, ?_⟩
      split at h
      · next hnil =>
        cases h
        rw [List.isEmpty_iff] at hnil
        have hd : (droppedRecords options s.records).map (·.job.jobId) = [] := hnil
        rw [hd]
        exact ⟨(filter_eq_self.mpr fun _ _ => rfl).symm, .nil⟩
      · cases h
        exact ⟨rfl, perm_insertionSort _ _⟩

variable {r : JobRecord}

theorem mem_droppable {records : List JobRecord} :
    r ∈ droppable records ↔ r ∈ records ∧ r.terminal = true ∧ activePrKey records r.prKey = false := by
  rw [droppable, mem_filter, Bool.and_eq_true, Bool.not_eq_true']
  exact Iff.rfl

theorem mem_of_mem_capLoop {max n : Nat} {rs : List JobRecord}
    (h : r ∈ capLoop max n rs) : r ∈ rs := by
  induction rs generalizing n with
  | nil => cases h
  | cons x rest ih =>
    unfold capLoop at h
    split at h
    · cases h
    · rcases mem_cons.mp h with rfl | h
      · exact mem_cons_self
      · exact mem_cons_of_mem _ (ih h)

theorem mem_remaining {options : CompactionOptions} {records : List JobRecord} :
    r ∈ remaining options records ↔ r ∈ droppable records ∧
      r.job.jobId ∉ (aged options records).map (·.job.jobId) := by
  rw [remaining, mem_insertionSort, mem_filter, Bool.not_eq_true',
    contains_eq_mem, decide_eq_false_iff_not]

theorem mem_droppedRecords {options : CompactionOptions} {records : List JobRecord}
    (h : r ∈ droppedRecords options records) : r ∈ droppable records := by
  rcases mem_append.mp h with h | h
  · exact (mem_filter.mp h).1
  · exact (mem_remaining.mp (mem_of_mem_capLoop h)).1

/-- What is dropped has ended, and no record of its pull request is alive. -/
theorem dropped_ended {options : CompactionOptions} {records : List JobRecord}
    (h : r ∈ droppedRecords options records) :
    r ∈ records ∧ r.terminal = true ∧ ∀ x ∈ records, x.prKey = r.prKey → x.terminal = true := by
  obtain ⟨hr, ht, ha⟩ := mem_droppable.mp (mem_droppedRecords h)
  refine ⟨hr, ht, fun x hx hkey => ?_⟩
  rw [activePrKey, any_eq_false] at ha
  have := ha x hx
  simp only [hkey, decide_true, Bool.and_true, Bool.not_eq_true', Bool.not_eq_false] at this
  exact this

/-! ## The order of the cap -/

theorem capLoop_eq_take (max n : Nat) (rs : List JobRecord) :
    capLoop max n rs = rs.take (n - max) := by
  induction rs generalizing n with
  | nil => simp [capLoop]
  | cons r rest ih =>
    unfold capLoop
    split
    · next h => rw [Nat.sub_eq_zero_of_le h, take_zero]
    · next h =>
      rw [ih, show n - max = n - 1 - max + 1 by omega, take_succ_cons]

/-- The place of a record in the order of the cap. -/
def dropKey (r : JobRecord) : (ℤ ×ₗ ℤ ×ₗ ℤ) ×ₗ List ℕ :=
  toLex (Number.rank r.updatedAtMs, utf16 r.job.jobId)

theorem dropOrder_iff {a b : JobRecord} (ha : a.updatedAtMs.isNaN = false)
    (hb : b.updatedAtMs.isNaN = false) : dropOrder a b = true ↔ dropKey a ≤ dropKey b := by
  have hlt : strLt b.job.jobId a.job.jobId = false ↔ utf16 a.job.jobId ≤ utf16 b.job.jobId := by
    rw [strLt, decide_eq_false_iff_not, not_lt]
  rw [dropKey, dropKey, Prod.Lex.toLex_le_toLex, ← hlt]
  simp only [dropOrder, Bool.or_eq_true, Bool.and_eq_true, Bool.not_eq_true', decide_eq_true_eq,
    decide_eq_false_iff_not, Number.lt_iff_rank ha hb, Number.lt_iff_rank hb ha, not_lt]
  constructor
  · rintro (h | ⟨h, hs⟩)
    · exact .inl h
    · rcases h.lt_or_eq with h | h
      · exact .inl h
      · exact .inr ⟨h, hs⟩
  · rintro (h | ⟨h, hs⟩)
    · exact .inl h
    · exact .inr ⟨h.le, hs⟩

theorem updatedAt_not_isNaN {records : List JobRecord} (h : SnapshotOk records) {r : JobRecord}
    (hr : r ∈ records) : r.updatedAtMs.isNaN = false :=
  (validTimes_iff.mp (h.record r hr).times).2.2.2.2.not_isNaN

theorem remaining_sorted {options : CompactionOptions} {records : List JobRecord}
    (h : SnapshotOk records) :
    (remaining options records).Pairwise (fun a b => dropOrder a b = true) := by
  let left := (droppable records).filter
    (fun r => !((aged options records).map (·.job.jobId)).contains r.job.jobId)
  have hmem : ∀ a ∈ left, a.updatedAtMs.isNaN = false := fun a ha =>
    updatedAt_not_isNaN h (mem_droppable.mp (mem_filter.mp ha).1).1
  have hmap : (remaining options records).map dropKey =
      (left.map dropKey).insertionSort (· ≤ ·) :=
    map_insertionSort _ _ dropKey left fun a ha b hb => dropOrder_iff (hmem a ha) (hmem b hb)
  have hsorted := pairwise_insertionSort (· ≤ ·) (left.map dropKey)
  rw [← hmap, pairwise_map] at hsorted
  refine hsorted.imp_of_mem fun {a b} ha hb hab => ?_
  have hin : ∀ x ∈ remaining options records, x.updatedAtMs.isNaN = false := fun x hx =>
    updatedAt_not_isNaN h (mem_droppable.mp (mem_remaining.mp hx).1).1
  exact (dropOrder_iff (hin a ha) (hin b hb)).mpr hab

/-- The cap drops in the order of `dropOrder`. -/
theorem capped_sorted {options : CompactionOptions} {records : List JobRecord}
    (h : SnapshotOk records) :
    (capped options records).Pairwise (fun a b => dropOrder a b = true) := by
  rw [capped, capLoop_eq_take]
  exact (remaining_sorted h).sublist (take_sublist _ _)

/-- A droppable record that stays does not come before one that the cap drops. -/
theorem capped_oldest {options : CompactionOptions} {records : List JobRecord}
    (h : SnapshotOk records) {x y : JobRecord} (hx : x ∈ capped options records)
    (hy : y ∈ droppable records)
    (hstay : y.job.jobId ∉ (droppedRecords options records).map (·.job.jobId)) :
    dropOrder x y = true := by
  rw [droppedRecords, map_append, mem_append, not_or] at hstay
  have hyr : y ∈ remaining options records := mem_remaining.mpr ⟨hy, hstay.1⟩
  have hsplit := take_append_drop
    (terminalCount records - (aged options records).length -
      Number.toNat options.maxTerminalRecords) (remaining options records)
  have hsorted : (remaining options records).Pairwise (fun a b => dropOrder a b = true) :=
    remaining_sorted h
  rw [← hsplit, pairwise_append] at hsorted
  rw [capped, capLoop_eq_take] at hx hstay
  refine hsorted.2.2 x hx y ?_
  rw [← hsplit] at hyr
  rcases mem_append.mp hyr with hm | hm
  · exact absurd (mem_map.mpr ⟨y, hm, rfl⟩) hstay.2
  · exact hm

/-! ## How many are left -/

/-- The ended records that a live record of their pull request protects. -/
def protectedRecords (records : List JobRecord) : List JobRecord :=
  records.filter (fun r => isTerminalState r.state && activePrKey records r.prKey)

theorem terminalCount_eq (records : List JobRecord) :
    terminalCount records = (droppable records).length + (protectedRecords records).length := by
  rw [terminalCount, length_eq_length_filter_add (fun r => !activePrKey records r.prKey),
    filter_filter, filter_filter, droppable, protectedRecords]
  congr 2
  · exact filter_congr fun r _ => Bool.and_comm _ _
  · exact filter_congr fun r _ => by rw [Bool.not_not, Bool.and_comm]

section Count

variable {options : CompactionOptions} {records : List JobRecord} (h : SnapshotOk records)
include h

theorem eq_of_jobId {a b : JobRecord} (ha : a ∈ records) (hb : b ∈ records)
    (hid : a.job.jobId = b.job.jobId) : a = b :=
  inj_on_of_nodup_map h.distinct ha hb hid

theorem nodup_droppable : (droppable records).Nodup :=
  (List.Nodup.of_map _ h.distinct).filter _

theorem nodup_remaining : (remaining options records).Nodup :=
  (perm_insertionSort _ _).nodup_iff.mpr ((nodup_droppable h).filter _)

theorem nodup_droppedRecords : ((droppedRecords options records).map (·.job.jobId)).Nodup := by
  have hnd : (droppedRecords options records).Nodup := by
    refine nodup_append.mpr ⟨(nodup_droppable h).filter _, ?_, ?_⟩
    · rw [capped, capLoop_eq_take]
      exact (nodup_remaining h).sublist (take_sublist _ _)
    · rintro a ha b hb rfl
      exact (mem_remaining.mp (mem_of_mem_capLoop hb)).2 (mem_map.mpr ⟨a, ha, rfl⟩)
  refine hnd.map_on fun a ha b hb hid => ?_
  exact eq_of_jobId h (dropped_ended ha).1 (dropped_ended hb).1 hid

/-- Every droppable record ages out or waits for the cap. -/
theorem length_droppable :
    (droppable records).length ≤ (aged options records).length + (remaining options records).length := by
  have hsub : (droppable records).Subperm (aged options records ++ remaining options records) := by
    refine List.Nodup.subperm (nodup_droppable h) fun r hr => ?_
    by_cases ha : r.job.jobId ∈ (aged options records).map (·.job.jobId)
    · obtain ⟨x, hx, hid⟩ := mem_map.mp ha
      have hxd := (mem_filter.mp hx).1
      rw [← eq_of_jobId h (mem_droppable.mp hxd).1 (mem_droppable.mp hr).1 hid]
      exact mem_append_left _ hx
    · exact mem_append_right _ (mem_remaining.mpr ⟨hr, ha⟩)
  rw [← length_append]
  exact hsub.length_le

/-- **The cap.** What is left is within the cap, or it is what live records protect. -/
theorem terminalCount_le :
    terminalCount (records.filter
        (fun r => !((droppedRecords options records).map (·.job.jobId)).contains r.job.jobId)) ≤
      max (Number.toNat options.maxTerminalRecords) (protectedRecords records).length := by
  let D := droppedRecords options records
  let gone (r : JobRecord) : Bool := (D.map (·.job.jobId)).contains r.job.jobId
  let T := records.filter (fun r => isTerminalState r.state)
  have hleft : terminalCount (records.filter (fun r => !gone r)) =
      (T.filter (fun r => !gone r)).length := by
    rw [terminalCount, filter_filter, filter_filter]
    congr 1
    exact filter_congr fun r _ => Bool.and_comm _ _
  have hgone : D.length ≤ (T.filter gone).length := by
    refine (List.Nodup.subperm (List.Nodup.of_map _ (nodup_droppedRecords h)) fun r hr => ?_).length_le
    obtain ⟨hmem, ht, -⟩ := dropped_ended hr
    refine mem_filter.mpr ⟨mem_filter.mpr ⟨hmem, ht⟩, ?_⟩
    exact contains_iff_mem.mpr (mem_map.mpr ⟨r, hr, rfl⟩)
  have hsplit : T.length = (T.filter gone).length + (T.filter (fun r => !gone r)).length :=
    length_eq_length_filter_add gone
  have hD : D.length = (aged options records).length + (capped options records).length :=
    length_append
  have hcap : (capped options records).length =
      min (T.length - (aged options records).length - Number.toNat options.maxTerminalRecords)
        (remaining options records).length := by
    rw [capped, capLoop_eq_take, length_take]
    rfl
  have htotal := terminalCount_eq records
  have hdrop : (droppable records).length ≤
      (aged options records).length + (remaining options records).length := length_droppable h
  change terminalCount (records.filter (fun r => !gone r)) ≤ _
  have hT : terminalCount records = T.length := rfl
  omega

end Count

end PrReviewer.Queue
