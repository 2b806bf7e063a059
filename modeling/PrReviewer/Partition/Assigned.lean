import Mathlib.Data.List.Pairwise
import PrReviewer.Partition.Plan

/-!
# Every file in one part

`collectEligible` gives each changed file with a name once, by its trimmed name (`mem_eligible_iff`,
`nodup_eligible`). `Assigned` is what the loop of `assignParts` keeps: the files so far are in the parts, in the
current part or left out, once each.
-/

open Js List

namespace PrReviewer.Partition

variable {sha256 : Bytes → String} {limits : PartitionLimits}

/-! ## Eligible files -/

section Eligible

variable {input : PlanInput} {chunks : Map String Bytes}

@[simp] theorem filename_eligibleFile (filename status : String) :
    (eligibleFile input limits chunks filename status).filename = filename := rfl

theorem collectFile_spec {eligible : List PartitionFileRef} {file : ChangedFile}
    (h : (eligible.map PartitionFileRef.filename).Nodup) :
    ((collectFile input limits chunks eligible file).map PartitionFileRef.filename).Nodup ∧
      ∀ name, name ∈ (collectFile input limits chunks eligible file).map PartitionFileRef.filename ↔
        name ∈ eligible.map PartitionFileRef.filename ∨ (name ≠ "" ∧ name = trim file.filename) := by
  unfold collectFile
  dsimp only
  split
  · next hskip =>
    refine ⟨h, fun name => ⟨.inl, ?_⟩⟩
    rintro (hname | ⟨hne, rfl⟩)
    · exact hname
    · exact hskip.resolve_left hne
  · next hfresh =>
    obtain ⟨hne, hnew⟩ := not_or.mp hfresh
    rw [map_append, map_singleton, filename_eligibleFile]
    refine ⟨h.append (nodup_singleton _) (by simpa using hnew), fun name => ?_⟩
    rw [mem_append, mem_singleton]
    refine or_congr Iff.rfl ⟨?_, And.right⟩
    rintro rfl
    exact ⟨hne, rfl⟩

theorem collectFiles_spec (files : List ChangedFile) {eligible : List PartitionFileRef}
    (h : (eligible.map PartitionFileRef.filename).Nodup) :
    ((files.foldl (collectFile input limits chunks) eligible).map PartitionFileRef.filename).Nodup ∧
      ∀ name, name ∈ (files.foldl (collectFile input limits chunks) eligible).map PartitionFileRef.filename ↔
        name ∈ eligible.map PartitionFileRef.filename ∨
          (name ≠ "" ∧ ∃ file ∈ files, name = trim file.filename) := by
  induction files generalizing eligible with
  | nil => exact ⟨h, fun name => by simp⟩
  | cons file files ih =>
    obtain ⟨hnodup, hmem⟩ := @collectFile_spec limits input chunks eligible file h
    obtain ⟨hnodup', hmem'⟩ := ih hnodup
    refine ⟨hnodup', fun name => ?_⟩
    rw [foldl_cons, hmem', hmem, exists_mem_cons_iff, or_assoc, and_or_left]

theorem perm_collectEligible (input : PlanInput) (limits : PartitionLimits) (chunks : Map String Bytes) :
    (collectEligible input limits chunks).Perm
      (input.changedFiles.foldl (collectFile input limits chunks) []) := perm_insertionSort _ _

theorem nodup_eligible :
    ((collectEligible input limits chunks).map PartitionFileRef.filename).Nodup := by
  have h := (@collectFiles_spec limits input chunks input.changedFiles [] nodup_nil).1
  exact ((perm_collectEligible input limits chunks).map _).nodup_iff.mpr h

/-- The eligible files are the changed files whose trimmed name is not empty. -/
theorem mem_eligible_iff {name : String} :
    name ∈ (collectEligible input limits chunks).map PartitionFileRef.filename ↔
      name ≠ "" ∧ ∃ file ∈ input.changedFiles, name = trim file.filename := by
  rw [((perm_collectEligible input limits chunks).map _).mem_iff]
  have h := (@collectFiles_spec limits input chunks input.changedFiles [] nodup_nil).2 name
  simpa using h

end Eligible

/-! ## Assignment -/

/-- The names of the files that are in a part or left out. -/
def Assignment.placed (a : Assignment) : List String :=
  a.parts.flatMap PartitionPart.filenames ++ a.currentFiles.map PartitionFileRef.filename ++ a.unassigned

/-- What the loop keeps after the files `done`. -/
structure Assigned (sha256 : Bytes → String) (done : List PartitionFileRef) (a : Assignment) : Prop where
  placed : a.placed.Perm (done.map PartitionFileRef.filename)
  index : a.parts.map PartitionPart.index = List.range a.parts.length
  identity : ∀ part ∈ a.parts, part.identity = computePartitionIdentity sha256 part.filenames
  files : ∀ part ∈ a.parts, part.files ≠ [] ∧ ∀ file ∈ part.files, file ∈ done
  current : ∀ file ∈ a.currentFiles, file ∈ done

section Assign

variable {done : List PartitionFileRef} {a : Assignment}

theorem assigned_empty : Assigned sha256 [] .empty where
  placed := List.Perm.refl _
  index := rfl
  identity _ h := nomatch h
  files _ h := nomatch h
  current _ h := nomatch h

@[simp] theorem filenames_makePart (index : Nat) (files : List PartitionFileRef) (bytes : Nat)
    (truncated : Bool) :
    (makePart sha256 index files bytes truncated).filenames = files.map PartitionFileRef.filename := rfl

/-- A new part at the end takes the files `files`. -/
theorem Assigned.addPart (h : Assigned sha256 done a) (files current : List PartitionFileRef)
    (bytes : Nat) (truncated : Bool) (currentBytes : Nat) (hne : files ≠ []) {done' : List PartitionFileRef}
    (hdone : ∀ file ∈ done, file ∈ done') (hfiles : ∀ file ∈ files, file ∈ done')
    (hcurrent : ∀ file ∈ current, file ∈ done') (hplaced : ((a.parts.flatMap PartitionPart.filenames
      ++ files.map PartitionFileRef.filename) ++ current.map PartitionFileRef.filename ++ a.unassigned).Perm
        (done'.map PartitionFileRef.filename)) :
    Assigned sha256 done'
      { a with
        parts := a.parts ++ [makePart sha256 a.parts.length files bytes truncated]
        currentFiles := current
        currentBytes } where
  placed := by simpa [Assignment.placed] using hplaced
  index := by simp [h.index, makePart, range_succ]
  identity part hpart := by
    rcases mem_append.mp hpart with hpart | hpart
    · exact h.identity part hpart
    · rw [mem_singleton.mp hpart]
      rfl
  files part hpart := by
    rcases mem_append.mp hpart with hpart | hpart
    · exact ⟨(h.files part hpart).1, fun file hfile => hdone file ((h.files part hpart).2 file hfile)⟩
    · rw [mem_singleton.mp hpart]
      exact ⟨hne, hfiles⟩
  current := hcurrent

theorem Assigned.flush (h : Assigned sha256 done a) :
    Assigned sha256 done (flush sha256 a) ∧ (Partition.flush sha256 a).currentFiles = [] := by
  unfold Partition.flush
  split
  · next hempty => exact ⟨h, hempty⟩
  · next hne =>
    refine ⟨h.addPart a.currentFiles [] _ _ 0 hne (fun _ hfile => hfile) h.current (fun _ hfile => nomatch hfile) ?_,
      rfl⟩
    simpa [Assignment.placed] using h.placed

theorem Assigned.leaveOut (h : Assigned sha256 done a) (file : PartitionFileRef) :
    Assigned sha256 (done ++ [file]) (leaveOut a file) where
  placed := by
    have hplaced := h.placed.append_right [file.filename]
    simpa [Assignment.placed, Partition.leaveOut] using hplaced
  index := h.index
  identity := h.identity
  files part hpart :=
    ⟨(h.files part hpart).1, fun f hf => mem_append_left _ ((h.files part hpart).2 f hf)⟩
  current f hf := mem_append_left _ (h.current f hf)

theorem Assigned.mark (h : Assigned sha256 done a) (file : PartitionFileRef) :
    Assigned sha256 done (markFile a file) :=
  ⟨h.placed, h.index, h.identity, h.files, h.current⟩

theorem assigned_assignFile (h : Assigned sha256 done a) (file : PartitionFileRef) :
    Assigned sha256 (done ++ [file]) (assignFile sha256 limits a file) := by
  have hmark := h.mark file
  have hlast : file ∈ done ++ [file] := mem_append_right _ (mem_singleton_self _)
  have hleft : ∀ f ∈ done, f ∈ done ++ [file] := fun f hf => mem_append_left _ hf
  unfold assignFile
  dsimp only
  split
  · obtain ⟨hclosed, hempty⟩ := hmark.flush
    generalize Partition.flush sha256 (markFile a file) = closed at *
    split
    · exact hclosed.leaveOut file
    · have hplaced := hclosed.placed
      rw [Assignment.placed, hempty] at hplaced
      refine hclosed.addPart [file] closed.currentFiles _ _ closed.currentBytes (by simp) hleft (by simp)
        (fun f hf => hleft f (hclosed.current f hf)) ?_
      rw [hempty]
      have hsnoc := hplaced.append_right [file.filename]
      simp only [map_nil, append_nil, append_assoc, map_append, map_cons] at hsnoc ⊢
      exact (perm_append_comm.append_left _).trans hsnoc
  · have hcurrent : Assigned sha256 done
        (if needsNew limits (markFile a file) file then Partition.flush sha256 (markFile a file)
          else markFile a file) := by
      split
      · exact hmark.flush.1
      · exact hmark
    generalize (if needsNew limits (markFile a file) file then Partition.flush sha256 (markFile a file)
      else markFile a file) = current at *
    split
    · exact hcurrent.leaveOut file
    · refine ⟨?_, hcurrent.index, hcurrent.identity, fun part hpart => ?_, fun f hf => ?_⟩
      · have hsnoc := hcurrent.placed.append_right [file.filename]
        simp only [Assignment.placed, append_assoc, map_append, map_cons, map_nil] at hsnoc ⊢
        exact ((perm_append_comm.append_left _).append_left _).trans hsnoc
      · exact ⟨(hcurrent.files part hpart).1, fun f hf => hleft f ((hcurrent.files part hpart).2 f hf)⟩
      · rcases mem_append.mp hf with hf | hf
        · exact hleft f (hcurrent.current f hf)
        · rw [mem_singleton.mp hf]
          exact hlast

theorem marks_flush :
    (flush sha256 a).noDiffFiles = a.noDiffFiles ∧ (flush sha256 a).oversizedFiles = a.oversizedFiles := by
  unfold flush
  split <;> exact ⟨rfl, rfl⟩

theorem marks_assignFile (file : PartitionFileRef) :
    (assignFile sha256 limits a file).noDiffFiles = (markFile a file).noDiffFiles ∧
      (assignFile sha256 limits a file).oversizedFiles = (markFile a file).oversizedFiles := by
  unfold assignFile leaveOut
  dsimp only
  split
  · split <;> exact marks_flush
  · split <;> split <;> first | exact marks_flush | exact ⟨rfl, rfl⟩

/-- What the loop has after the files. -/
theorem assigned_foldl (files : List PartitionFileRef) :
    Assigned sha256 files (files.foldl (assignFile sha256 limits) .empty) ∧
      (files.foldl (assignFile sha256 limits) .empty).noDiffFiles =
        (files.filter PartitionFileRef.noDiff).map PartitionFileRef.filename ∧
      (files.foldl (assignFile sha256 limits) .empty).oversizedFiles =
        (files.filter PartitionFileRef.oversized).map PartitionFileRef.filename := by
  induction files using List.reverseRecOn with
  | nil => exact ⟨assigned_empty, rfl, rfl⟩
  | append_singleton files file ih =>
    obtain ⟨h, hnoDiff, hoversized⟩ := ih
    rw [foldl_append, foldl_cons, foldl_nil]
    refine ⟨assigned_assignFile h file, ?_, ?_⟩
    · rw [(marks_assignFile file).1, markFile, hnoDiff, filter_append, map_append]
      cases hfile : file.noDiff <;> simp [hfile]
    · rw [(marks_assignFile file).2, markFile, hoversized, filter_append, map_append]
      cases hfile : file.oversized <;> simp [hfile]

end Assign

/-! ## The plan -/

section Plan

variable {input : PlanInput} {name : String}

/-- The eligible files of an input. -/
def eligibleOf (input : PlanInput) : List PartitionFileRef :=
  collectEligible input (resolveLimits input.limits) (chunkMap input.diff)

/-- The assignment of an input. -/
def assignedOf (sha256 : Bytes → String) (input : PlanInput) : Assignment :=
  assignParts sha256 (eligibleOf input) (resolveLimits input.limits)

theorem assigned_plan (input : PlanInput) :
    Assigned sha256 (eligibleOf input) (assignedOf sha256 input) ∧ (assignedOf sha256 input).currentFiles = [] :=
  (assigned_foldl (eligibleOf input)).1.flush

/-- The lists of the coverage are those of the assignment, sorted. -/
theorem coverage_plan (input : PlanInput) :
    (planPartitions sha256 input).coverage.unassignedFiles = sortStrings (assignedOf sha256 input).unassigned ∧
      (planPartitions sha256 input).coverage.oversizedFiles =
        sortStrings (assignedOf sha256 input).oversizedFiles ∧
      (planPartitions sha256 input).coverage.noDiffFiles = sortStrings (assignedOf sha256 input).noDiffFiles :=
  ⟨rfl, rfl, rfl⟩

/-- A name that is in a part or left out is an eligible one, once. -/
theorem placed_plan (input : PlanInput) :
    ((planPartitions sha256 input).parts.flatMap PartitionPart.filenames ++
        (assignedOf sha256 input).unassigned).Perm
      ((eligibleOf input).map PartitionFileRef.filename) := by
  obtain ⟨h, hempty⟩ := @assigned_plan sha256 input
  have hplaced := h.placed
  rw [Assignment.placed, hempty, map_nil, append_nil] at hplaced
  exact hplaced

theorem nodup_plan (input : PlanInput) :
    ((planPartitions sha256 input).parts.flatMap PartitionPart.filenames ++
      (assignedOf sha256 input).unassigned).Nodup :=
  (placed_plan input).nodup_iff.mpr nodup_eligible

/-- The parts have different indices. -/
theorem nodup_index (input : PlanInput) :
    ((planPartitions sha256 input).parts.map PartitionPart.index).Nodup := by
  have hrange := (@assigned_plan sha256 input).1.index
  change (planPartitions sha256 input).parts.map PartitionPart.index = _ at hrange
  rw [hrange]
  exact nodup_range

variable {part part' : PartitionPart}

theorem index_injective (h : part ∈ (planPartitions sha256 input).parts)
    (h' : part' ∈ (planPartitions sha256 input).parts) (hindex : part.index = part'.index) : part = part' :=
  inj_on_of_nodup_map (nodup_index input) h h' hindex

/-- A name is in one part at most. -/
theorem part_unique (h : part ∈ (planPartitions sha256 input).parts)
    (h' : part' ∈ (planPartitions sha256 input).parts) (hname : name ∈ part.filenames)
    (hname' : name ∈ part'.filenames) : part = part' := by
  have hnodup := (nodup_append.mp (@nodup_plan sha256 input)).1
  rw [nodup_flatMap] at hnodup
  by_contra hne
  have hsymm : Std.Symm (Function.onFun List.Disjoint PartitionPart.filenames) := 
    ⟨fun _ _ hxy _ hy hx => hxy hx hy⟩
  exact hnodup.2.forall h h' hne hname hname'

/-- The part of a name is the only one. -/
theorem filter_parts (h : part ∈ (planPartitions sha256 input).parts)
    (hname : name ∈ part.filenames) :
    ((planPartitions sha256 input).parts.filter fun part => name ∈ part.filenames) = [part] := by
  have hnodup := (List.Nodup.of_map _ (@nodup_index sha256 input)).filter fun part => decide (name ∈ part.filenames)
  refine perm_singleton.mp ((perm_ext_iff_of_nodup hnodup (nodup_singleton part)).mpr fun part' => ?_)
  rw [mem_filter, decide_eq_true_eq, mem_singleton]
  constructor
  · exact fun h' => part_unique h'.1 h h'.2 hname
  · rintro rfl
    exact ⟨h, hname⟩

theorem complete_iff :
    (planPartitions sha256 input).coverage.complete = true ↔
      (assignedOf sha256 input).unassigned = [] ∧ (assignedOf sha256 input).oversizedFiles = [] ∧
        (assignedOf sha256 input).noDiffFiles = [] := by
  have hsort : ∀ l, sortStrings l = [] ↔ l = [] := fun l =>
    ⟨fun h => perm_nil.mp (h ▸ (perm_sortStrings l).symm), fun h => by rw [h]; rfl⟩
  change decide (incompleteReasons (assignedOf sha256 input) = []) = true ↔ _
  rw [decide_eq_true_eq, incompleteReasons, hsort]
  split <;> split <;> split <;> simp_all

theorem marks_plan (input : PlanInput) :
    (assignedOf sha256 input).noDiffFiles =
        ((eligibleOf input).filter PartitionFileRef.noDiff).map PartitionFileRef.filename ∧
      (assignedOf sha256 input).oversizedFiles =
        ((eligibleOf input).filter PartitionFileRef.oversized).map PartitionFileRef.filename := by
  obtain ⟨-, hnoDiff, hoversized⟩ := @assigned_foldl sha256 (resolveLimits input.limits) (eligibleOf input)
  obtain ⟨hflush, hflush'⟩ :=
    @marks_flush sha256 ((eligibleOf input).foldl (assignFile sha256 (resolveLimits input.limits)) .empty)
  exact ⟨hflush.trans hnoDiff, hflush'.trans hoversized⟩

/-- A file of a part is marked as the plan lists it. -/
theorem marks_of_mem (h : part ∈ (planPartitions sha256 input).parts)
    {file : PartitionFileRef} (hfile : file ∈ part.files) :
    (file.filename ∈ (assignedOf sha256 input).noDiffFiles ↔ file.noDiff = true) ∧
      (file.filename ∈ (assignedOf sha256 input).oversizedFiles ↔ file.oversized = true) := by
  have hdone := ((@assigned_plan sha256 input).1.files part h).2 file hfile
  have hname : ∀ p : PartitionFileRef → Bool,
      file.filename ∈ ((eligibleOf input).filter p).map PartitionFileRef.filename ↔ p file = true := by
    intro p
    constructor
    · intro hmem
      obtain ⟨file', hfile', heq⟩ := mem_map.mp hmem
      obtain ⟨hdone', hp⟩ := mem_filter.mp hfile'
      obtain rfl := inj_on_of_nodup_map nodup_eligible hdone' hdone heq
      exact hp
    · exact fun hp => mem_map_of_mem (mem_filter.mpr ⟨hdone, hp⟩)
  obtain ⟨hnoDiff, hoversized⟩ := @marks_plan sha256 input
  rw [hnoDiff, hoversized]
  exact ⟨hname _, hname _⟩

/-- A name of a part is not left out. -/
theorem not_unassigned_of_mem (h : part ∈ (planPartitions sha256 input).parts)
    (hname : name ∈ part.filenames) : name ∉ (assignedOf sha256 input).unassigned := by
  have hdisjoint := (nodup_append.mp (@nodup_plan sha256 input)).2.2
  exact fun hleft => hdisjoint name (mem_flatMap.mpr ⟨part, h, hname⟩) name hleft rfl

/-- With complete coverage, each changed file with a name is in a part. -/
theorem exists_part (hcomplete : (planPartitions sha256 input).coverage.complete = true)
    (hname : name ≠ "" ∧ ∃ file ∈ input.changedFiles, name = trim file.filename) :
    ∃ part ∈ (planPartitions sha256 input).parts, name ∈ part.filenames := by
  have heligible : name ∈ (eligibleOf input).map PartitionFileRef.filename := mem_eligible_iff.mpr hname
  have hplaced := (@placed_plan sha256 input).mem_iff.mpr heligible
  rw [(complete_iff.mp hcomplete).1, append_nil] at hplaced
  exact mem_flatMap.mp hplaced

/-- Each part has a file, and its names are changed files. -/
theorem part_names (h : part ∈ (planPartitions sha256 input).parts) :
    part.filenames ≠ [] ∧
      ∀ name ∈ part.filenames, name ≠ "" ∧ ∃ file ∈ input.changedFiles, name = trim file.filename := by
  obtain ⟨hne, hfiles⟩ := (@assigned_plan sha256 input).1.files part h
  refine ⟨fun hnil => hne (map_eq_nil_iff.mp hnil), fun name hname => ?_⟩
  obtain ⟨file, hfile, rfl⟩ := mem_map.mp hname
  exact mem_eligible_iff.mp (mem_map_of_mem (hfiles file hfile))

end Plan

end PrReviewer.Partition
