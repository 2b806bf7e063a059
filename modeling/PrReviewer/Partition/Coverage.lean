import PrReviewer.Partition.Plan

/-!
# The coverage of a partitioned review

`partitionCoverageGap` of `src/partition/coverage.ts`, on a manifest and the outcomes of its parts. An index that
is no natural number is the index of no part; it is `none` here.

The gap carries no leads, so its two fields for them are left out.
-/

open Js List

namespace PrReviewer.Partition

inductive PartitionOutcomeStatus where
  | complete
  | failed
  | timeout
  | truncated
  | missing
  | superseded
  deriving DecidableEq

structure PartitionOutcome where
  index : Option Nat
  status : PartitionOutcomeStatus
  headSha : String
  diffFingerprint : String
  partitionIdentity : String
  deriving DecidableEq

structure PartialCoverage where
  stopReason : String
  changedFilesTotal : Nat
  unreadFiles : List String

def isManifestStale (manifest : PartitionManifest) (currentHead : String) : Bool := manifest.headSha ≠ currentHead

def outcomeMatchesManifest (outcome : PartitionOutcome) (manifest : PartitionManifest) : Bool :=
  if outcome.headSha ≠ manifest.headSha then false
  else if outcome.diffFingerprint ≠ manifest.diffFingerprint then false
  else
    match manifest.parts.find? fun candidate => some candidate.index = outcome.index with
    | none => false
    | some part => outcome.partitionIdentity = part.identity

structure OutcomeValidation where
  valid : Map (Option Nat) PartitionOutcomeStatus
  seenIndices : List (Option Nat)
  /-- Indices with two or more outcomes. -/
  ambiguous : List (Option Nat)

def validateOutcome (manifest : PartitionManifest) (v : OutcomeValidation) (outcome : PartitionOutcome) :
    OutcomeValidation :=
  if outcome.index ∈ v.seenIndices then
    { v with ambiguous := outcome.index :: v.ambiguous, valid := v.valid.delete outcome.index }
  else
    let seen := { v with seenIndices := outcome.index :: v.seenIndices }
    if outcomeMatchesManifest outcome manifest = false then seen
    else { seen with valid := v.valid.set outcome.index outcome.status }

def validateOutcomes (outcomes : List PartitionOutcome) (manifest : PartitionManifest) : OutcomeValidation :=
  outcomes.foldl (validateOutcome manifest) ⟨.empty, [], []⟩

/-- Has the part an outcome that counts, and is it complete? -/
def isAccepted (v : OutcomeValidation) (part : PartitionPart) : Bool :=
  !v.ambiguous.contains (some part.index) && decide (v.valid.get? (some part.index) = some .complete)

/-- The files that are not covered. -/
def unreadFiles (manifest : PartitionManifest) (v : OutcomeValidation) : List String :=
  (manifest.parts.filter fun part => !isAccepted v part).flatMap PartitionPart.filenames
    ++ manifest.coverage.unassignedFiles ++ manifest.coverage.oversizedFiles ++ manifest.coverage.noDiffFiles

def partitionCoverageGap (manifest : PartitionManifest) (outcomes : List PartitionOutcome)
    (currentHead : String) : Option PartialCoverage :=
  let v := validateOutcomes outcomes manifest
  let incomplete := isManifestStale manifest currentHead
    || manifest.parts.any (fun part => !isAccepted v part) || !manifest.coverage.complete
  if incomplete then
    some ⟨"partition-incomplete", manifest.coverage.changedFilesTotal,
      sortStrings (unreadFiles manifest v).dedup⟩
  else none

/-! ## Outcomes that count -/

section Validate

variable {manifest : PartitionManifest}

/-- The outcomes of an index. -/
def outcomesAt (outcomes : List PartitionOutcome) (i : Option Nat) : List PartitionOutcome :=
  outcomes.filter fun outcome => outcome.index = i

/-- What the loop knows of an index after these outcomes. -/
structure Validated (manifest : PartitionManifest) (outcomes : List PartitionOutcome) (v : OutcomeValidation) :
    Prop where
  seen : ∀ i, i ∈ v.seenIndices ↔ outcomesAt outcomes i ≠ []
  ambiguous : ∀ i, i ∈ v.ambiguous ↔ 1 < (outcomesAt outcomes i).length
  valid : ∀ i status, v.valid.get? i = some status ↔
    ∃ outcome, outcomesAt outcomes i = [outcome] ∧ outcomeMatchesManifest outcome manifest = true ∧
      outcome.status = status

theorem outcomesAt_snoc (outcomes : List PartitionOutcome) (outcome : PartitionOutcome) (i : Option Nat) :
    outcomesAt (outcomes ++ [outcome]) i =
      if i = outcome.index then outcomesAt outcomes i ++ [outcome] else outcomesAt outcomes i := by
  rw [outcomesAt, filter_append, ← outcomesAt]
  by_cases h : i = outcome.index
  · simp [h]
  · simp [h, Ne.symm h]

variable {outcomes : List PartitionOutcome}

theorem validated_step {v : OutcomeValidation}
    (h : Validated manifest outcomes v) (outcome : PartitionOutcome) :
    Validated manifest (outcomes ++ [outcome]) (validateOutcome manifest v outcome) := by
  unfold validateOutcome
  split
  · next hseen =>
    have hne := (h.seen _).mp hseen
    have hlength : 0 < (outcomesAt outcomes outcome.index).length := length_pos_iff.mpr hne
    refine ⟨fun i => ?_, fun i => ?_, fun i status => ?_⟩
    · rw [outcomesAt_snoc, h.seen]
      split
      · next hi => simp [hi, hne]
      · rfl
    · rw [outcomesAt_snoc, mem_cons, h.ambiguous]
      split
      · next hi => simp [hi, hlength]
      · next hi => simp [hi]
    · rw [outcomesAt_snoc, Map.get?_delete]
      split
      · next hi =>
        subst hi
        refine ⟨by simp, ?_⟩
        rintro ⟨o, ho, -⟩
        have := congrArg List.length ho
        simp at this
        exact absurd this hne
      · exact h.valid i status
  · next hseen =>
    have hnil : outcomesAt outcomes outcome.index = [] := by
      by_contra hne
      exact hseen ((h.seen _).mpr hne)
    have hunknown : ∀ status, v.valid.get? outcome.index ≠ some status := by
      intro status hvalid
      obtain ⟨o, ho, -⟩ := (h.valid _ _).mp hvalid
      rw [hnil] at ho
      cases ho
    have hseen' : ∀ i, i ∈ outcome.index :: v.seenIndices ↔ outcomesAt (outcomes ++ [outcome]) i ≠ [] := by
      intro i
      rw [outcomesAt_snoc, mem_cons, h.seen]
      split
      · next hi => simp [hi]
      · next hi => simp [hi]
    have hambiguous : ∀ i, i ∈ v.ambiguous ↔ 1 < (outcomesAt (outcomes ++ [outcome]) i).length := by
      intro i
      rw [outcomesAt_snoc, h.ambiguous]
      split
      · next hi => simp [hi, hnil]
      · rfl
    split
    · next hmatches =>
      refine ⟨hseen', hambiguous, fun i status => ?_⟩
      rw [outcomesAt_snoc]
      split
      · next hi =>
        subst hi
        refine iff_of_false (hunknown status) ?_
        rintro ⟨o, ho, hmatch, -⟩
        rw [hnil] at ho
        obtain rfl := singleton_inj.mp ho
        rw [hmatches] at hmatch
        cases hmatch
      · exact h.valid i status
    · next hmatches =>
      rw [Bool.not_eq_false] at hmatches
      refine ⟨hseen', hambiguous, fun i status => ?_⟩
      rw [outcomesAt_snoc, Map.get?_set]
      split
      · next hi =>
        subst hi
        rw [hnil]
        simp [hmatches]
      · exact h.valid i status

theorem validated_validateOutcomes (outcomes : List PartitionOutcome) :
    Validated manifest outcomes (validateOutcomes outcomes manifest) := by
  induction outcomes using List.reverseRecOn with
  | nil =>
    refine ⟨fun i => ?_, fun i => ?_, fun i status => ?_⟩
    · simp [validateOutcomes, outcomesAt]
    · simp [validateOutcomes, outcomesAt]
    · exact iff_of_false (fun h => nomatch h) fun ⟨o, ho, _⟩ => nomatch ho
  | append_singleton outcomes outcome ih =>
    rw [validateOutcomes, foldl_append]
    exact validated_step ih outcome

/-- A part is accepted exactly for one outcome of its index that matches and is complete. -/
theorem isAccepted_iff {part : PartitionPart} :
    isAccepted (validateOutcomes outcomes manifest) part = true ↔
      ∃ outcome, outcomesAt outcomes (some part.index) = [outcome] ∧
        outcomeMatchesManifest outcome manifest = true ∧ outcome.status = .complete := by
  have h := @validated_validateOutcomes manifest outcomes
  rw [isAccepted, Bool.and_eq_true, decide_eq_true_eq, h.valid, Bool.not_eq_true', contains_eq_mem,
    decide_eq_false_iff_not, h.ambiguous]
  refine ⟨And.right, fun haccepted => ⟨?_, haccepted⟩⟩
  obtain ⟨outcome, hat, -⟩ := haccepted
  rw [hat]
  exact Nat.lt_irrefl 1

end Validate

end PrReviewer.Partition
