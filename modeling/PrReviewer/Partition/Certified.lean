import Mathlib.Data.List.Dedup
import PrReviewer.Partition.Assigned
import PrReviewer.Partition.Coverage

/-!
# When a partitioned review is complete

An outcome was produced for a head, a diff and a set of names (`Origin`), and carries their fingerprints
(`Stamped`). `Certified` says that a review without a gap has every changed file in one part that is answered for
this head, diff and set of names, and that a gap lists every file that is not.

The identity of a part is the digest of its sorted names, joined with line feeds. Different sets of names can
join to the same text, so `Certified` holds exactly without such an alias (`certified_iff`), as when no name has a
line feed (`noAlias_of_plain`).
-/

open Js List

namespace PrReviewer.Partition

/-- What an outcome was produced for. -/
structure Origin where
  headSha : String
  diff : Bytes
  filenames : List String

variable (sha256 : Bytes → String)

/-- The stamps of the outcome are the fingerprints of its origin, or of nothing at all. -/
def Stamped (outcome : PartitionOutcome) (origin : Origin) : Prop :=
  outcome.headSha = origin.headSha ∧
    (∀ diff, outcome.diffFingerprint = diffFingerprint sha256 diff →
      outcome.diffFingerprint = diffFingerprint sha256 origin.diff) ∧
    ∀ filenames, outcome.partitionIdentity = computePartitionIdentity sha256 filenames →
      outcome.partitionIdentity = computePartitionIdentity sha256 origin.filenames

/-- The outcome has the fingerprints of its origin. -/
def Carries (outcome : PartitionOutcome) (origin : Origin) : Prop :=
  outcome.diffFingerprint = diffFingerprint sha256 origin.diff ∧
    outcome.partitionIdentity = computePartitionIdentity sha256 origin.filenames

section Produced

variable (input : PlanInput) (produced : List (PartitionOutcome × Origin))

/-- The outcomes of an index, with their origins. -/
def producedAt (i : Nat) : List (PartitionOutcome × Origin) := produced.filter fun p => p.1.index = some i

/-- The only outcome of the part is complete, and its origin is this head, this diff and the names of the part. -/
def Answered (part : PartitionPart) : Prop :=
  ∃ outcome origin, producedAt produced part.index = [(outcome, origin)] ∧ outcome.status = .complete ∧
    origin.headSha = input.headSha ∧ origin.diff = input.diff ∧
    ∀ name, name ∈ origin.filenames ↔ name ∈ part.filenames

/-- The gap of the plan. -/
def gapOf (currentHead : String) : Option PartialCoverage :=
  partitionCoverageGap (planPartitions sha256 input) (produced.map Prod.fst) currentHead

structure Certified (currentHead : String) : Prop where
  complete : gapOf sha256 input produced currentHead = none →
    currentHead = input.headSha ∧
      ∀ file ∈ input.changedFiles, trim file.filename ≠ "" →
        ∃ part, ((planPartitions sha256 input).parts.filter fun part => trim file.filename ∈ part.filenames) =
            [part] ∧ Answered input produced part
  unread : ∀ gap, gapOf sha256 input produced currentHead = some gap →
    (∀ part ∈ (planPartitions sha256 input).parts, ¬Answered input produced part →
      ∀ name ∈ part.filenames, name ∈ gap.unreadFiles) ∧
    ∀ name ∈ (planPartitions sha256 input).coverage.unassignedFiles
        ++ (planPartitions sha256 input).coverage.oversizedFiles
        ++ (planPartitions sha256 input).coverage.noDiffFiles, name ∈ gap.unreadFiles

/-- No complete outcome with its fingerprints, the only one of its index and of this head and diff, was produced
for other names that join to the text of the part at this index, if the part has a file with a diff that is not
oversized. -/
def NoAlias : Prop :=
  ∀ part ∈ (planPartitions sha256 input).parts, ∀ outcome origin,
    producedAt produced part.index = [(outcome, origin)] → outcome.status = .complete →
    Carries sha256 outcome origin → origin.headSha = input.headSha → origin.diff = input.diff →
    identityText origin.filenames = identityText part.filenames →
    (∃ file ∈ part.files, file.oversized = false ∧ file.noDiff = false) →
    ∀ name, name ∈ origin.filenames ↔ name ∈ part.filenames

/-- The texts that are hashed. -/
def hashed : List Bytes :=
  input.diff :: produced.map (fun p => p.2.diff)
    ++ (planPartitions sha256 input).parts.map (fun part => utf8 (identityText part.filenames))
    ++ produced.map fun p => utf8 (identityText p.2.filenames)

end Produced

/-! ## Accepted parts -/

section Accepted

variable {sha256 : Bytes → String} {input : PlanInput} {produced : List (PartitionOutcome × Origin)}
  {part : PartitionPart}

theorem find?_index (h : part ∈ (planPartitions sha256 input).parts) :
    ((planPartitions sha256 input).parts.find? fun candidate => some candidate.index = some part.index) =
      some part := by
  cases hfind : (planPartitions sha256 input).parts.find? fun candidate =>
      some candidate.index = some part.index with
  | none =>
    have hnot := List.find?_eq_none.mp hfind part h
    simp at hnot
  | some found =>
    have hindex : found.index = part.index := by simpa using List.find?_some hfind
    rw [index_injective (List.mem_of_find?_eq_some hfind) h hindex]

theorem outcomesAt_produced (i : Nat) :
    outcomesAt (produced.map Prod.fst) (some i) = (producedAt produced i).map Prod.fst := by
  rw [outcomesAt, filter_map]
  rfl

/-- The part is accepted exactly for one complete outcome of this head and diff, and of names that join to the
text of the part. -/
theorem accepted_iff (hstamped : ∀ p ∈ produced, Stamped sha256 p.1 p.2)
    (hsha : ∀ a ∈ hashed sha256 input produced, ∀ b ∈ hashed sha256 input produced,
      sha256 a = sha256 b → a = b) (h : part ∈ (planPartitions sha256 input).parts) :
    isAccepted (validateOutcomes (produced.map Prod.fst) (planPartitions sha256 input)) part = true ↔
      ∃ outcome origin, producedAt produced part.index = [(outcome, origin)] ∧ outcome.status = .complete ∧
        Carries sha256 outcome origin ∧ origin.headSha = input.headSha ∧ origin.diff = input.diff ∧
        identityText origin.filenames = identityText part.filenames := by
  have hidentity : part.identity = computePartitionIdentity sha256 part.filenames :=
    (@assigned_plan sha256 input).1.identity part h
  have hmatches : ∀ outcome, outcome.index = some part.index →
      (outcomeMatchesManifest outcome (planPartitions sha256 input) = true ↔
        outcome.headSha = input.headSha ∧ outcome.diffFingerprint = diffFingerprint sha256 input.diff ∧
          outcome.partitionIdentity = computePartitionIdentity sha256 part.filenames) := by
    intro outcome hindex
    have hhead : (planPartitions sha256 input).headSha = input.headSha := rfl
    have hdiff : (planPartitions sha256 input).diffFingerprint = diffFingerprint sha256 input.diff := rfl
    rw [outcomeMatchesManifest, hhead, hdiff, hindex, find?_index h, ← hidentity]
    by_cases hsame : outcome.headSha = input.headSha <;>
      by_cases hfingerprint : outcome.diffFingerprint = diffFingerprint sha256 input.diff <;>
      simp [hsame, hfingerprint]
  have hmem : ∀ {p}, producedAt produced part.index = [p] → p ∈ produced ∧ p.1.index = some part.index := by
    intro p hat
    have hp : p ∈ producedAt produced part.index := by
      rw [hat]
      exact mem_singleton_self _
    exact ⟨(mem_filter.mp hp).1, of_decide_eq_true (mem_filter.mp hp).2⟩
  rw [isAccepted_iff, outcomesAt_produced]
  constructor
  · rintro ⟨outcome, hat, hmatch, hstatus⟩
    obtain ⟨⟨o, origin⟩, hat', rfl⟩ := map_eq_singleton_iff.mp hat
    obtain ⟨hproduced, hindex⟩ := hmem hat'
    obtain ⟨hhead, hdiff, hnames⟩ := (hmatches o hindex).mp hmatch
    obtain ⟨hstampHead, hstampDiff, hstampNames⟩ := hstamped _ hproduced
    have hcarries : Carries sha256 o origin := ⟨hstampDiff _ hdiff, hstampNames _ hnames⟩
    refine ⟨o, origin, hat', hstatus, hcarries, hstampHead.symm.trans hhead, ?_, ?_⟩
    · refine hsha _ ?_ _ ?_ (hcarries.1.symm.trans hdiff)
      · simp only [hashed, mem_append, mem_cons, mem_map]
        exact .inl (.inl (.inr ⟨_, hproduced, rfl⟩))
      · simp [hashed]
    · refine utf8_injective (hsha _ ?_ _ ?_ (hcarries.2.symm.trans hnames))
      · simp only [hashed, mem_append, mem_cons, mem_map]
        exact .inr ⟨_, hproduced, rfl⟩
      · simp only [hashed, mem_append, mem_cons, mem_map]
        exact .inl (.inr ⟨_, h, rfl⟩)
  · rintro ⟨outcome, origin, hat, hstatus, ⟨hfingerprint, hnames⟩, hhead, hdiff, htext⟩
    obtain ⟨hproduced, hindex⟩ := hmem hat
    have hmatch : outcomeMatchesManifest outcome (planPartitions sha256 input) = true := by
      refine (hmatches outcome hindex).mpr ⟨(hstamped _ hproduced).1.trans hhead, ?_, ?_⟩
      · rw [hfingerprint, hdiff]
      · rw [hnames, computePartitionIdentity, htext]
        rfl
    exact ⟨outcome, by rw [hat]; rfl, hmatch, hstatus⟩

/-! ## Gaps -/

theorem gapOf_eq_none {currentHead : String} :
    gapOf sha256 input produced currentHead = none ↔
      currentHead = input.headSha ∧ (planPartitions sha256 input).coverage.complete = true ∧
        ∀ part ∈ (planPartitions sha256 input).parts,
          isAccepted (validateOutcomes (produced.map Prod.fst) (planPartitions sha256 input)) part = true := by
  have hhead : (planPartitions sha256 input).headSha = input.headSha := rfl
  rw [gapOf, partitionCoverageGap, isManifestStale, hhead]
  split
  · next hincomplete =>
    refine iff_of_false (fun hnone => nomatch hnone) fun ⟨hcurrent, hcomplete, hall⟩ => ?_
    simp only [hcurrent, hcomplete, Bool.or_eq_true, any_eq_true] at hincomplete
    rcases hincomplete with (hstale | ⟨part, hpart, hnot⟩) | hnot
    · simp at hstale
    · simp [hall part hpart] at hnot
    · cases hnot
  · next hcomplete =>
    simp only [Bool.or_eq_true, not_or, any_eq_true] at hcomplete
    obtain ⟨⟨hcurrent, hparts⟩, hcomplete⟩ := hcomplete
    refine iff_of_true rfl ⟨?_, by simpa using hcomplete, fun part hpart => ?_⟩
    · by_contra hne
      exact hcurrent (decide_eq_true (Ne.symm hne))
    · by_contra hnot
      exact hparts ⟨part, hpart, by simpa using hnot⟩

theorem mem_unread {currentHead : String} {gap : PartialCoverage}
    (h : gapOf sha256 input produced currentHead = some gap) {name : String} :
    name ∈ gap.unreadFiles ↔
      (∃ part ∈ (planPartitions sha256 input).parts,
        isAccepted (validateOutcomes (produced.map Prod.fst) (planPartitions sha256 input)) part = false ∧
          name ∈ part.filenames) ∨
      name ∈ (assignedOf sha256 input).unassigned ∨ name ∈ (assignedOf sha256 input).oversizedFiles ∨
        name ∈ (assignedOf sha256 input).noDiffFiles := by
  rw [gapOf, partitionCoverageGap] at h
  split at h
  · cases h
    obtain ⟨hunassigned, hoversized, hnoDiff⟩ := @coverage_plan sha256 input
    rw [mem_sortStrings, mem_dedup, unreadFiles, hunassigned, hoversized, hnoDiff]
    simp only [mem_append, mem_flatMap, mem_filter, mem_sortStrings, Bool.not_eq_true', and_assoc,
      or_assoc]
  · cases h

end Accepted

/-! ## The result -/

section Result

variable {input : PlanInput} {produced : List (PartitionOutcome × Origin)}

/-- A review is certified as it should be exactly when no outcome was produced for an alias of its part. -/
theorem certified_iff (hstamped : ∀ p ∈ produced, Stamped sha256 p.1 p.2)
    (hsha : ∀ a ∈ hashed sha256 input produced, ∀ b ∈ hashed sha256 input produced,
      sha256 a = sha256 b → a = b) (currentHead : String) :
    Certified sha256 input produced currentHead ↔ NoAlias sha256 input produced := by
  constructor
  · intro hcertified part hpart outcome origin hat hstatus hcarries hhead hdiff htext ⟨file, hfile, hsmall, hthere⟩
    have hname : file.filename ∈ part.filenames := mem_map_of_mem hfile
    have hanswered : Answered input produced part := by
      cases hgap : gapOf sha256 input produced currentHead with
      | none =>
        obtain ⟨hne, changed, hchanged, heq⟩ := (part_names hpart).2 _ hname
        obtain ⟨part', hfilter, hanswered⟩ :=
          (hcertified.complete hgap).2 changed hchanged (heq ▸ hne)
        rw [← heq, filter_parts hpart hname] at hfilter
        rwa [singleton_inj.mp hfilter]
      | some gap =>
        by_contra hnot
        have haccepted := (accepted_iff hstamped hsha hpart).mpr
          ⟨outcome, origin, hat, hstatus, hcarries, hhead, hdiff, htext⟩
        obtain ⟨hnoDiff, hoversized⟩ := marks_of_mem hpart hfile
        rcases (mem_unread hgap).mp ((hcertified.unread gap hgap).1 part hpart hnot _ hname) with
          ⟨part', hpart', hnot', hname'⟩ | hunassigned | hlarge | hmissing
        · rw [part_unique hpart' hpart hname' hname, haccepted] at hnot'
          cases hnot'
        · exact not_unassigned_of_mem hpart hname hunassigned
        · rw [hoversized.mp hlarge] at hsmall
          cases hsmall
        · rw [hnoDiff.mp hmissing] at hthere
          cases hthere
    obtain ⟨outcome', origin', hat', -, -, -, hsame⟩ := hanswered
    rw [hat] at hat'
    obtain ⟨rfl, rfl⟩ := Prod.mk.inj (singleton_inj.mp hat')
    exact hsame
  · intro hnoAlias
    have hanswered : ∀ part ∈ (planPartitions sha256 input).parts,
        isAccepted (validateOutcomes (produced.map Prod.fst) (planPartitions sha256 input)) part = true →
        (∃ file ∈ part.files, file.oversized = false ∧ file.noDiff = false) → Answered input produced part := by
      intro part hpart haccepted hfile
      obtain ⟨outcome, origin, hat, hstatus, hcarries, hhead, hdiff, htext⟩ :=
        (accepted_iff hstamped hsha hpart).mp haccepted
      exact ⟨outcome, origin, hat, hstatus, hhead, hdiff,
        hnoAlias part hpart outcome origin hat hstatus hcarries hhead hdiff htext hfile⟩
    refine ⟨fun hgap => ?_, fun gap hgap => ⟨fun part hpart hnot name hname => ?_, fun name hname => ?_⟩⟩
    · obtain ⟨hcurrent, hcomplete, hall⟩ := gapOf_eq_none.mp hgap
      refine ⟨hcurrent, fun changed hchanged hne => ?_⟩
      obtain ⟨part, hpart, hname⟩ := exists_part hcomplete ⟨hne, changed, hchanged, rfl⟩
      obtain ⟨file, hfile, hfilename⟩ := mem_map.mp hname
      obtain ⟨hnoDiff, hoversized⟩ := marks_of_mem hpart hfile
      obtain ⟨-, hlarge, hmissing⟩ := complete_iff.mp hcomplete
      rw [hlarge] at hoversized
      rw [hmissing] at hnoDiff
      refine ⟨part, filter_parts hpart hname, hanswered part hpart (hall part hpart) ⟨file, hfile, ?_, ?_⟩⟩
      · simpa using hoversized
      · simpa using hnoDiff
    · rw [mem_unread hgap]
      by_cases haccepted :
          isAccepted (validateOutcomes (produced.map Prod.fst) (planPartitions sha256 input)) part = true
      · -- an accepted part that is not answered has no file with an ordinary diff
        obtain ⟨file, hfile, rfl⟩ := mem_map.mp hname
        obtain ⟨hnoDiff, hoversized⟩ := marks_of_mem hpart hfile
        by_cases hsmall : file.oversized = false
        · by_cases hthere : file.noDiff = false
          · exact absurd (hanswered part hpart haccepted ⟨file, hfile, hsmall, hthere⟩) hnot
          · exact .inr (.inr (.inr (hnoDiff.mpr (by simpa using hthere))))
        · exact .inr (.inr (.inl (hoversized.mpr (by simpa using hsmall))))
      · exact .inl ⟨part, hpart, by simpa using haccepted, hname⟩
    · rw [mem_unread hgap]
      obtain ⟨hunassigned, hoversized, hnoDiff⟩ := @coverage_plan sha256 input
      rw [hunassigned, hoversized, hnoDiff] at hname
      simp only [mem_append, mem_sortStrings, or_assoc] at hname
      exact .inr hname

/-- Names without line feeds have no alias. -/
theorem noAlias_of_plain (hinput : ∀ file ∈ input.changedFiles, '\n' ∉ (trim file.filename).toList)
    (horigins : ∀ p ∈ produced, ∀ name ∈ p.2.filenames, '\n' ∉ name.toList) :
    NoAlias sha256 input produced := by
  intro part hpart outcome origin hat _ _ _ _ htext _
  have hproduced : (outcome, origin) ∈ produced := by
    have hmem : (outcome, origin) ∈ producedAt produced part.index := by
      rw [hat]
      exact mem_singleton_self _
    exact (mem_filter.mp hmem).1
  obtain ⟨hne, hnames⟩ := part_names hpart
  have hlines : ∀ names : List String, names ≠ [] → (∀ name ∈ names, '\n' ∉ name.toList) →
      (identityText names).toList.splitOn '\n' = (sortStrings names).map String.toList := by
    intro names hnil hplain
    rw [identityText, String.toList_intercalate]
    refine splitOn_intercalate '\n' (fun l hl => ?_) ?_
    · obtain ⟨name, hname, rfl⟩ := mem_map.mp hl
      exact hplain name (mem_sortStrings.mp hname)
    · rw [ne_eq, map_eq_nil_iff]
      exact fun hsorted => hnil (perm_nil.mp (hsorted ▸ (perm_sortStrings names).symm))
  have hpartLines := hlines part.filenames hne fun name hname => by
    obtain ⟨-, file, hfile, rfl⟩ := hnames name hname
    exact hinput file hfile
  have horigin : origin.filenames ≠ [] := by
    rintro hnil
    have hempty : (identityText origin.filenames).toList.splitOn '\n' = [[]] := by rw [hnil]; rfl
    rw [htext, hpartLines] at hempty
    obtain ⟨name, hsorted, hname⟩ := map_eq_singleton_iff.mp hempty
    have hblank : name = "" := String.toList_eq_nil_iff.mp hname
    have hmem : name ∈ part.filenames := mem_sortStrings.mp (by rw [hsorted]; exact mem_singleton_self _)
    exact (hnames name hmem).1 hblank
  have hsorted : sortStrings origin.filenames = sortStrings part.filenames := by
    refine (map_injective_iff.mpr fun a b => String.toList_inj.mp) ?_
    rw [← hpartLines, ← htext, hlines _ horigin (horigins _ hproduced)]
  intro name
  rw [← mem_sortStrings, hsorted, mem_sortStrings]

end Result

/-! ## An example -/

/-- A diff of two files. -/
def twoFilesDiff : Bytes :=
  utf8 ("diff --git a/a.ts b/a.ts\n@@ -1 +1 @@\n-1\n+2\n" ++ "diff --git a/b.ts b/b.ts\n@@ -1 +1 @@\n-1\n+2\n")

def twoFiles : PlanInput where
  changedFiles := [⟨"a.ts", "modified"⟩, ⟨"b.ts", "modified"⟩]
  diff := twoFilesDiff
  generatedPaths _ := false
  headSha := "c0ffee0"
  limits := {}

/-- The digests of the diff and of the names of its files. -/
def twoFilesDigest (text : Bytes) : String :=
  if text = twoFilesDiff then "c12bb2fbf7f11baf31845736a8e3ec506d6a237a1dbf2e21a7bd10aa9bde619f"
  else if text = utf8 "a.ts\nb.ts" then "e8630bc34b5b107f5cfa086825156e94583ac49073ba5898b831347e2120bbb4"
  else ""

/-- A complete outcome of the first part, produced for these names. -/
def outcomeFor (filenames : List String) : PartitionOutcome × Origin :=
  (⟨some 0, .complete, "c0ffee0", diffFingerprint twoFilesDigest twoFilesDiff,
      computePartitionIdentity twoFilesDigest filenames⟩,
    ⟨"c0ffee0", twoFilesDiff, filenames⟩)

theorem stamped_outcomeFor (filenames : List String) :
    Stamped twoFilesDigest (outcomeFor filenames).1 (outcomeFor filenames).2 :=
  ⟨rfl, fun _ _ => rfl, fun _ _ => rfl⟩

instance noCollision_twoFiles : Fact (∀ names ∈ [["b.ts", "a.ts"], ["a.ts\nb.ts"]],
    ∀ a ∈ hashed twoFilesDigest twoFiles [outcomeFor names],
      ∀ b ∈ hashed twoFilesDigest twoFiles [outcomeFor names], twoFilesDigest a = twoFilesDigest b → a = b) :=
  ⟨forall_mem_cons.mpr ⟨by decide +kernel, by decide +kernel⟩⟩

instance gapOf_alias : Fact ((gapOf twoFilesDigest twoFiles [outcomeFor ["a.ts\nb.ts"]] "c0ffee0").isNone = true) :=
  ⟨by decide +kernel⟩

theorem certified_iff_twoFiles :
    Certified twoFilesDigest twoFiles [outcomeFor ["b.ts", "a.ts"]] "c0ffee0" := by
  refine (certified_iff twoFilesDigest ?_ ?_ _).mpr (noAlias_of_plain twoFilesDigest ?_ ?_)
  · intro p hp
    rw [mem_singleton.mp hp]
    exact stamped_outcomeFor _
  · exact noCollision_twoFiles.out _ mem_cons_self
  · decide +kernel
  · decide +kernel

/-- An outcome of the one file `a.ts⏎b.ts` certifies the review of the two files. -/
theorem alias_not_certified :
    (∀ p ∈ [outcomeFor ["a.ts\nb.ts"]], Stamped twoFilesDigest p.1 p.2) ∧
      (∀ a ∈ hashed twoFilesDigest twoFiles [outcomeFor ["a.ts\nb.ts"]],
        ∀ b ∈ hashed twoFilesDigest twoFiles [outcomeFor ["a.ts\nb.ts"]],
          twoFilesDigest a = twoFilesDigest b → a = b) ∧
      (gapOf twoFilesDigest twoFiles [outcomeFor ["a.ts\nb.ts"]] "c0ffee0").isNone = true ∧
      ¬Certified twoFilesDigest twoFiles [outcomeFor ["a.ts\nb.ts"]] "c0ffee0" := by
  have hgap : (gapOf twoFilesDigest twoFiles [outcomeFor ["a.ts\nb.ts"]] "c0ffee0").isNone = true :=
    gapOf_alias.out
  refine ⟨fun p hp => ?_, noCollision_twoFiles.out _ (mem_cons_of_mem _ mem_cons_self), hgap, fun hcertified => ?_⟩
  · rw [mem_singleton.mp hp]
    exact stamped_outcomeFor _
  · obtain ⟨part, hfilter, outcome, origin, hat, -, -, -, hsame⟩ :=
      (hcertified.complete (Option.isNone_iff_eq_none.mp hgap)).2 ⟨"a.ts", "modified"⟩ mem_cons_self (by decide)
    have hpart : part ∈ (planPartitions twoFilesDigest twoFiles).parts.filter fun part =>
        trim "a.ts" ∈ part.filenames := by
      rw [hfilter]
      exact mem_singleton_self _
    have hproduced : (outcome, origin) ∈ producedAt [outcomeFor ["a.ts\nb.ts"]] part.index := by
      rw [hat]
      exact mem_singleton_self _
    have horigin := (Prod.mk.inj (mem_singleton.mp (mem_filter.mp hproduced).1)).2
    have hname := (hsame (trim "a.ts")).mpr (of_decide_eq_true (mem_filter.mp hpart).2)
    rw [horigin] at hname
    exact absurd hname (by decide)

end PrReviewer.Partition
