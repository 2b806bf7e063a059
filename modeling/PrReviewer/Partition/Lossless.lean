import Mathlib.Algebra.Order.BigOperators.Group.List
import Mathlib.Data.List.Flatten
import PrReviewer.Js.Count
import PrReviewer.Js.Group
import PrReviewer.Partition.Assigned

/-!
# Limits and content of a plan

- **Limits**: the loop of `assignParts` keeps `Bounded`: the parts and the pending one are below their caps, and one
  more file still fits them.
- **Content**: `chunkMap` keeps the first chunk of a path, so the bytes of a part hold all chunks of its files
  exactly when each of these has one chunk at most (`containsChunks_iff`). Chunks are not empty, so a lost one shows in
  the length.
-/

open Js PrReviewer.Corpus List

namespace PrReviewer.Partition

variable {sha256 : Bytes → String} {limits : PartitionLimits}

/-! ## Limits -/

/-- Limits on counts that are whole numbers from 1 on. -/
structure CountLimits (limits : PartitionLimits) : Prop where
  parts : 1 ≤ limits.maxParts ∧ Number.IsWhole limits.maxParts
  files : 1 ≤ limits.maxFilesPerPart ∧ Number.IsWhole limits.maxFilesPerPart

/-- The files of a part, with its bytes, are within the limits. -/
structure Fits (limits : PartitionLimits) (files : List PartitionFileRef) (bytes : Nat) : Prop where
  count : Number.ofNat files.length ≤ limits.maxFilesPerPart
  sum : bytes = (files.map PartitionFileRef.bytes).sum
  bytes : 2 ≤ files.length → ¬limits.maxBytesPerPart < Number.ofNat bytes

/-- What the loop keeps after `count` files. -/
structure Bounded (limits : PartitionLimits) (count : Nat) (a : Assignment) : Prop where
  count : a.parts.length + a.currentFiles.length ≤ count
  parts : Number.ofNat a.parts.length ≤ limits.maxParts
  pending : a.currentFiles ≠ [] → ¬limits.maxParts ≤ Number.ofNat a.parts.length
  current : Fits limits a.currentFiles a.currentBytes
  closed : ∀ part ∈ a.parts, Fits limits part.files part.bytes

section Limits

variable {count : Nat} {a : Assignment}

theorem fits_nil (h : CountLimits limits) : Fits limits [] 0 where
  count := Number.le_trans (by decide +kernel) h.files.1
  sum := rfl
  bytes h := absurd h (by decide)

theorem fits_singleton (h : CountLimits limits) (file : PartitionFileRef) : Fits limits [file] file.bytes where
  count := Number.le_trans (by decide +kernel : Number.ofNat 1 ≤ 1) h.files.1
  sum := by simp
  bytes h := absurd h (by simp)

theorem bounded_empty (h : CountLimits limits) : Bounded limits 0 .empty where
  count := Nat.le_refl 0
  parts := Number.le_trans (by decide +kernel) h.parts.1
  pending hne := absurd rfl hne
  current := fits_nil h
  closed _ hpart := nomatch hpart

/-- One more part, while the cap is not reached. -/
theorem Bounded.push (h : Bounded limits count a) (hlimits : CountLimits limits)
    (hcount : a.parts.length + 1 < 2 ^ 53) (hcap : ¬limits.maxParts ≤ Number.ofNat a.parts.length) (part : PartitionPart)
    (hpart : Fits limits part.files part.bytes) {count' : Nat} (hcount' : a.parts.length + 1 ≤ count') :
    Bounded limits count' { a with parts := a.parts ++ [part], currentFiles := [], currentBytes := 0 } where
  count := by simpa using hcount'
  parts := by
    rw [length_append, length_singleton]
    exact Number.ofNat_succ_le hlimits.parts.1 hlimits.parts.2 hcount hcap
  pending hne := absurd rfl hne
  current := fits_nil hlimits
  closed p hp := by
    rcases mem_append.mp hp with hp | hp
    · exact h.closed p hp
    · rw [mem_singleton.mp hp]
      exact hpart

theorem Bounded.flush (sha256 : Bytes → String) (h : Bounded limits count a) (hlimits : CountLimits limits) (hcount : count < 2 ^ 53) :
    Bounded limits count (flush sha256 a) ∧ (Partition.flush sha256 a).currentFiles = [] := by
  unfold Partition.flush
  split
  · next hempty => exact ⟨h, hempty⟩
  · next hne =>
    have hlength : 0 < a.currentFiles.length := length_pos_iff.mpr hne
    have hle := h.count
    exact ⟨h.push hlimits (by omega) (h.pending hne) _ h.current (by omega), rfl⟩

theorem Bounded.leaveOut (h : Bounded limits count a) (file : PartitionFileRef) :
    Bounded limits (count + 1) (leaveOut a file) where
  count := Nat.le_succ_of_le h.count
  parts := h.parts
  pending := h.pending
  current := h.current
  closed := h.closed

theorem Bounded.mark (h : Bounded limits count a) (file : PartitionFileRef) : Bounded limits count (markFile a file) :=
  ⟨h.count, h.parts, h.pending, h.current, h.closed⟩

/-- A file that does not need a new part fits into the pending one. -/
theorem Fits.snoc (h : Fits limits a.currentFiles a.currentBytes) (hlimits : CountLimits limits)
    (hcount : a.currentFiles.length + 1 < 2 ^ 53) {file : PartitionFileRef}
    (hroom : a.currentFiles = [] ∨ needsNew limits a file = false) :
    Fits limits (a.currentFiles ++ [file]) (a.currentBytes + file.bytes) where
  count := by
    rw [length_append, length_singleton]
    refine Number.ofNat_succ_le hlimits.files.1 hlimits.files.2 hcount ?_
    rcases hroom with hempty | hroom
    · rw [hempty, length_nil]
      intro hle
      exact absurd (Number.le_trans hlimits.files.1 hle) (by decide +kernel)
    · rw [needsNew, Bool.or_eq_false_iff, decide_eq_false_iff_not] at hroom
      exact hroom.1
  sum := by rw [h.sum, map_append, sum_append, map_singleton, sum_singleton]
  bytes htwo := by
    have hne : a.currentFiles ≠ [] := by
      rintro hempty
      rw [hempty] at htwo
      exact absurd htwo (by simp)
    have hroom := hroom.resolve_left hne
    rw [needsNew, Bool.or_eq_false_iff, Bool.and_eq_false_iff] at hroom
    rcases hroom.2 with hbytes | hcurrent
    · exact of_decide_eq_false hbytes
    · exact absurd hne (of_decide_eq_false hcurrent)

theorem bounded_assignFile (h : Bounded limits count a) (hlimits : CountLimits limits) (hcount : count + 1 < 2 ^ 53)
    (file : PartitionFileRef) : Bounded limits (count + 1) (assignFile sha256 limits a file) := by
  have hmark := h.mark file
  unfold assignFile
  dsimp only
  split
  · obtain ⟨hclosed, hempty⟩ := hmark.flush sha256 hlimits (by omega)
    generalize Partition.flush sha256 (markFile a file) = closed at *
    split
    · exact hclosed.leaveOut file
    · next hcap =>
      rw [atPartCap, Bool.not_eq_true, decide_eq_false_iff_not] at hcap
      have hle := hclosed.count
      have hpush := hclosed.push hlimits (by omega) hcap
        (makePart sha256 closed.parts.length [file] file.bytes true) (fits_singleton hlimits file)
        (show closed.parts.length + 1 ≤ count + 1 by omega)
      refine ⟨?_, hpush.parts, ?_, hclosed.current, hpush.closed⟩
      · rw [hempty]
        exact hpush.count
      · exact fun hne => absurd hempty hne
  · have hcurrent : Bounded limits count
          (if needsNew limits (markFile a file) file then Partition.flush sha256 (markFile a file)
            else markFile a file) ∧
        ((if needsNew limits (markFile a file) file then Partition.flush sha256 (markFile a file)
            else markFile a file).currentFiles = [] ∨
          needsNew limits (if needsNew limits (markFile a file) file then Partition.flush sha256 (markFile a file)
            else markFile a file) file = false) := by
      split
      · obtain ⟨hclosed, hempty⟩ := hmark.flush sha256 hlimits (by omega)
        exact ⟨hclosed, .inl hempty⟩
      · next hroom => exact ⟨hmark, .inr (Bool.not_eq_true _ ▸ hroom)⟩
    generalize (if needsNew limits (markFile a file) file then Partition.flush sha256 (markFile a file)
      else markFile a file) = current at *
    obtain ⟨hcurrent, hroom⟩ := hcurrent
    split
    · exact hcurrent.leaveOut file
    · next hcap =>
      rw [atPartCap, Bool.not_eq_true, decide_eq_false_iff_not] at hcap
      have hle := hcurrent.count
      refine ⟨?_, hcurrent.parts, fun _ => hcap, hcurrent.current.snoc hlimits (by omega) hroom, hcurrent.closed⟩
      change current.parts.length + (current.currentFiles ++ [file]).length ≤ count + 1
      rw [length_append, length_singleton]
      omega

theorem bounded_foldl (hlimits : CountLimits limits) (files : List PartitionFileRef) (hcount : files.length < 2 ^ 53) :
    Bounded limits files.length (files.foldl (assignFile sha256 limits) .empty) := by
  induction files using List.reverseRecOn with
  | nil => exact bounded_empty hlimits
  | append_singleton files file ih =>
    rw [length_append, length_singleton] at hcount ⊢
    rw [foldl_append, foldl_cons, foldl_nil]
    exact bounded_assignFile (ih (by omega)) hlimits hcount file

end Limits

/-! ## Content -/

section Content

variable {diff : Bytes} {name : String}

/-- The path of a chunk, as text. -/
def pathOf (chunk : Bytes × Bytes) : String := decodeUtf8Ignore chunk.1

/-- The chunks of a path. -/
def chunksAt (diff : Bytes) (name : String) : List Bytes := (groupOf pathOf (splitChunks diff).2 name).map Prod.snd

/-- The chunks whose path is one of the names. -/
def chunksOf (diff : Bytes) (names : List String) : List Bytes :=
  ((splitChunks diff).2.filter fun chunk => pathOf chunk ∈ names).map Prod.snd

theorem foldl_chunkMap (chunks : List (Bytes × Bytes)) (map : Map String Bytes) (name : String) :
    (chunks.foldl (fun map chunk => if map.has (pathOf chunk) then map else map.set (pathOf chunk) chunk.2) map).get?
        name =
      (map.get? name).or ((groupOf pathOf chunks name).map Prod.snd).head? := by
  induction chunks generalizing map with
  | nil => simp [groupOf]
  | cons chunk chunks ih =>
    rw [foldl_cons, ih]
    by_cases hpath : pathOf chunk = name
    · subst hpath
      have hgroup : groupOf pathOf (chunk :: chunks) (pathOf chunk) = chunk :: groupOf pathOf chunks (pathOf chunk) := by
        simp [groupOf]
      rw [hgroup, map_cons, List.head?_cons]
      cases hget : map.get? (pathOf chunk) with
      | none => rw [if_neg (by simp [Map.has, hget]), Map.get?_set_self, Option.some_or, Option.none_or]
      | some data => rw [if_pos (by simp [Map.has, hget]), hget, Option.some_or, Option.some_or]
    · have hgroup : groupOf pathOf (chunk :: chunks) name = groupOf pathOf chunks name := by
        simp [groupOf, hpath]
      rw [hgroup]
      split
      · rfl
      · rw [Map.get?_set_ne (Ne.symm hpath)]

/-- The first chunk of a path is kept. -/
theorem get?_chunkMap (diff : Bytes) (name : String) : (chunkMap diff).get? name = (chunksAt diff name).head? := by
  have hfold := foldl_chunkMap (splitChunks diff).2 .empty name
  rw [Map.get?_empty, Option.none_or] at hfold
  exact hfold

theorem partitionDiffBytes_eq (part : PartitionPart) (diff : Bytes) :
    partitionDiffBytes part diff = (part.filenames.flatMap fun name => (chunksAt diff name).head?.toList).flatten := by
  rw [partitionDiffBytes, PartitionPart.filenames, flatMap_map, filterMap_eq_flatMap_toList]
  simp only [get?_chunkMap]

theorem perm_chunksOf (diff : Bytes) {names : List String} (h : names.Nodup) :
    (names.flatMap (chunksAt diff)).Perm (chunksOf diff names) := by
  have hperm := (perm_flatMap_groupOf pathOf (splitChunks diff).2 h).map Prod.snd
  rw [map_flatMap] at hperm
  exact hperm

theorem ne_nil_of_mem_chunksAt {data : Bytes} (h : data ∈ chunksAt diff name) : data ≠ [] := by
  obtain ⟨chunk, hchunk, rfl⟩ := mem_map.mp h
  exact chunk_ne_nil (mem_groupOf.mp hchunk).1

/-- The first chunk of a path is as long as all its chunks only when there is no second one. -/
theorem length_head_le (diff : Bytes) (name : String) :
    (chunksAt diff name).head?.toList.flatten.length ≤ (chunksAt diff name).flatten.length ∧
      ((chunksAt diff name).flatten.length ≤ (chunksAt diff name).head?.toList.flatten.length →
        (chunksAt diff name).length ≤ 1) := by
  cases hchunks : chunksAt diff name with
  | nil => simp
  | cons data rest =>
    cases rest with
    | nil => simp
    | cons data' rest =>
      have hpos : 0 < data'.length :=
        length_pos_iff.mpr (ne_nil_of_mem_chunksAt (hchunks ▸ mem_cons_of_mem _ mem_cons_self))
      simp only [List.head?_cons, Option.toList_some, flatten_cons, flatten_nil, length_append,
        length_nil]
      omega

theorem head?_of_length_le (h : (chunksAt diff name).length ≤ 1) : (chunksAt diff name).head?.toList = chunksAt diff name := by
  cases hchunks : chunksAt diff name with
  | nil => rfl
  | cons data rest =>
    rw [hchunks, length_cons] at h
    rw [eq_nil_of_length_eq_zero (show rest.length = 0 by omega)]
    rfl

theorem length_flatten_flatMap (names : List String) (f : String → List Bytes) :
    (names.flatMap f).flatten.length = (names.map fun name => (f name).flatten.length).sum := by
  induction names with
  | nil => rfl
  | cons name names ih => simp [flatMap_cons, ih]

/-- Nothing is lost exactly when each name has one chunk at most. -/
theorem containsChunks_iff {names : List String} (hnodup : names.Nodup) :
    (∃ pieces : List Bytes, (names.flatMap fun name => (chunksAt diff name).head?.toList).flatten = pieces.flatten ∧
        (chunksOf diff names).Subperm pieces) ↔
      ∀ name ∈ names, (chunksAt diff name).length ≤ 1 := by
  constructor
  · rintro ⟨pieces, hpieces, hsub⟩ name hname
    refine (length_head_le diff name).2 ?_
    by_contra hlt
    have hsum : (names.map fun name => (chunksAt diff name).head?.toList.flatten.length).sum <
        (names.map fun name => (chunksAt diff name).flatten.length).sum :=
      sum_lt_sum _ _ (fun name _ => (length_head_le diff name).1) ⟨name, hname, not_le.mp hlt⟩
    rw [← length_flatten_flatMap, ← length_flatten_flatMap, hpieces] at hsum
    have hall : (names.flatMap (chunksAt diff)).flatten.length ≤ pieces.flatten.length := by
      obtain ⟨rest, hrest, hsub⟩ := hsub
      rw [((perm_chunksOf diff hnodup).trans hrest.symm).flatten.length_eq]
      exact (hsub.flatten).length_le
    omega
  · intro h
    refine ⟨names.flatMap (chunksAt diff), ?_, (perm_chunksOf diff hnodup).symm.subperm⟩
    rw [flatMap_congr fun name hname => head?_of_length_le (h name hname)]

end Content

/-! ## The plan -/

section Plan

variable {input : PlanInput}

/-- The names of the changed files. -/
def changedNames (input : PlanInput) : List String :=
  (input.changedFiles.map fun file => trim file.filename).filter (· ≠ "")

theorem mem_changedNames {name : String} :
    name ∈ changedNames input ↔ name ≠ "" ∧ ∃ file ∈ input.changedFiles, name = trim file.filename := by
  rw [changedNames, mem_filter, mem_map, decide_eq_true_eq, and_comm]
  simp only [eq_comm]

/-- The size of an eligible file is that of the chunk that is kept. -/
theorem bytes_collectFiles {chunks : Map String Bytes} (files : List ChangedFile) {eligible : List PartitionFileRef}
    (h : ∀ ref ∈ eligible, ref.bytes = ((chunks.get? ref.filename).map List.length).getD 0) :
    ∀ ref ∈ files.foldl (collectFile input limits chunks) eligible,
      ref.bytes = ((chunks.get? ref.filename).map List.length).getD 0 := by
  induction files generalizing eligible with
  | nil => exact h
  | cons file files ih =>
    refine ih fun ref href => ?_
    rw [collectFile] at href
    split at href
    · exact h ref href
    · rcases mem_append.mp href with href | href
      · exact h ref href
      · rw [mem_singleton.mp href]
        rfl

theorem bytes_of_mem {ref : PartitionFileRef} (h : ref ∈ eligibleOf input) :
    ref.bytes = (chunksAt input.diff ref.filename).head?.toList.flatten.length := by
  have hmem := (perm_collectEligible input (resolveLimits input.limits) (chunkMap input.diff)).mem_iff.mp h
  have hbytes := bytes_collectFiles input.changedFiles (forall_mem_nil _) ref hmem
  rw [hbytes, get?_chunkMap]
  cases (chunksAt input.diff ref.filename).head? <;> simp

/-- What a part weighs is the length of its bytes. -/
theorem length_partitionDiffBytes {part : PartitionPart} (h : ∀ ref ∈ part.files, ref ∈ eligibleOf input)
    (hsum : part.bytes = (part.files.map PartitionFileRef.bytes).sum) :
    (partitionDiffBytes part input.diff).length = part.bytes := by
  rw [partitionDiffBytes_eq, length_flatten_flatMap, hsum, PartitionPart.filenames, map_map]
  congr 1
  exact map_congr_left fun ref href => (bytes_of_mem (h ref href)).symm

/-- A plan is within its limits, places each changed file once, and the bytes of its parts hold all chunks. -/
structure Lossless (sha256 : Bytes → String) (input : PlanInput) : Prop where
  parts : Number.ofNat (planPartitions sha256 input).parts.length ≤ (resolveLimits input.limits).maxParts
  files : ∀ part ∈ (planPartitions sha256 input).parts,
    Number.ofNat part.files.length ≤ (resolveLimits input.limits).maxFilesPerPart
  bytes : ∀ part ∈ (planPartitions sha256 input).parts,
    part.bytes = (partitionDiffBytes part input.diff).length ∧
      (2 ≤ part.files.length → ¬(resolveLimits input.limits).maxBytesPerPart < Number.ofNat part.bytes)
  placed : ∀ name ∈ changedNames input,
    ((planPartitions sha256 input).parts.flatMap PartitionPart.filenames ++
      (planPartitions sha256 input).coverage.unassignedFiles).count name = 1
  contains : ∀ part ∈ (planPartitions sha256 input).parts, ∃ pieces : List Bytes,
    partitionDiffBytes part input.diff = pieces.flatten ∧ (chunksOf input.diff part.filenames).Subperm pieces
  complete : (planPartitions sha256 input).coverage.complete = true → ∃ pieces : List Bytes,
    ((planPartitions sha256 input).parts.map fun part => partitionDiffBytes part input.diff).flatten = pieces.flatten ∧
      pieces.Perm (chunksOf input.diff (changedNames input))

theorem nodup_filenames {part : PartitionPart} (h : part ∈ (planPartitions sha256 input).parts) :
    part.filenames.Nodup :=
  (nodup_flatMap.mp (nodup_append.mp (nodup_plan input)).1).1 part h

/-- With complete coverage, the names of the parts are the changed ones. -/
theorem mem_filenames_iff (hcomplete : (planPartitions sha256 input).coverage.complete = true) (name : String) :
    name ∈ (planPartitions sha256 input).parts.flatMap PartitionPart.filenames ↔ name ∈ changedNames input := by
  rw [mem_flatMap, mem_changedNames]
  constructor
  · rintro ⟨part, hpart, hname⟩
    exact (part_names hpart).2 name hname
  · exact exists_part hcomplete

theorem length_collectFiles_le {chunks : Map String Bytes} (files : List ChangedFile)
    (eligible : List PartitionFileRef) :
    (files.foldl (collectFile input limits chunks) eligible).length ≤ eligible.length + files.length := by
  induction files generalizing eligible with
  | nil => exact Nat.le_refl _
  | cons file files ih =>
    have hstep : (collectFile input limits chunks eligible file).length ≤ eligible.length + 1 := by
      unfold collectFile
      dsimp only
      split
      · omega
      · rw [length_append, length_singleton]
    have hrest := ih (collectFile input limits chunks eligible file)
    rw [foldl_cons, length_cons]
    omega

/-- The plan is within its limits. -/
theorem bounded_plan (sha256 : Bytes → String) (hlimits : CountLimits (resolveLimits input.limits))
    (hfiles : input.changedFiles.length < 2 ^ 53) :
    Bounded (resolveLimits input.limits) (eligibleOf input).length (assignedOf sha256 input) := by
  have hlength : (eligibleOf input).length ≤ input.changedFiles.length := by
    have hle := @length_collectFiles_le (resolveLimits input.limits) input (chunkMap input.diff) input.changedFiles []
    rw [length_nil, Nat.zero_add] at hle
    rw [eligibleOf, (perm_collectEligible _ _ _).length_eq]
    exact hle
  exact ((bounded_foldl hlimits (eligibleOf input) (by omega)).flush sha256 hlimits (by omega)).1

/-- The plan of an input with whole limits loses no diff content exactly when no file of a part has two chunks. -/
theorem lossless_iff (sha256 : Bytes → String) (input : PlanInput) (hlimits : CountLimits (resolveLimits input.limits))
    (hfiles : input.changedFiles.length < 2 ^ 53) :
    Lossless sha256 input ↔
      ∀ part ∈ (planPartitions sha256 input).parts, ∀ name ∈ part.filenames, (chunksAt input.diff name).length ≤ 1 := by
  constructor
  · intro h part hpart
    obtain ⟨pieces, hpieces, hsub⟩ := h.contains part hpart
    rw [partitionDiffBytes_eq] at hpieces
    exact (containsChunks_iff (nodup_filenames hpart)).mp ⟨pieces, hpieces, hsub⟩
  · intro h
    have hbounded := bounded_plan sha256 hlimits hfiles
    have hassigned := (@assigned_plan sha256 input).1
    have hbytes : ∀ part ∈ (planPartitions sha256 input).parts, ∀ pieces : List Bytes,
        part.filenames.flatMap (chunksAt input.diff) = pieces → partitionDiffBytes part input.diff = pieces.flatten := by
      rintro part hpart pieces rfl
      rw [partitionDiffBytes_eq, flatMap_congr fun name hname => head?_of_length_le (h part hpart name hname)]
    refine ⟨hbounded.parts, fun part hpart => (hbounded.closed part hpart).count, ?_, ?_, ?_, ?_⟩
    · intro part hpart
      have hfits := hbounded.closed part hpart
      exact ⟨(length_partitionDiffBytes (hassigned.files part hpart).2 hfits.sum).symm, hfits.bytes⟩
    · intro name hname
      have heligible : name ∈ (eligibleOf input).map PartitionFileRef.filename :=
        mem_eligible_iff.mpr (mem_changedNames.mp hname)
      have hunassigned := perm_sortStrings (assignedOf sha256 input).unassigned
      have hperm := (hunassigned.append_left _).trans (@placed_plan sha256 input)
      have hcount := hperm.count_eq name
      exact hcount.trans (count_eq_one_of_mem nodup_eligible heligible)
    · intro part hpart
      exact ⟨_, hbytes part hpart _ rfl, (perm_chunksOf _ (nodup_filenames hpart)).symm.subperm⟩
    · intro hcomplete
      refine ⟨((planPartitions sha256 input).parts.flatMap PartitionPart.filenames).flatMap (chunksAt input.diff), ?_, ?_⟩
      · rw [flatMap_assoc, flatMap_def, flatten_flatten, map_map]
        congr 1
        exact map_congr_left fun part hpart => hbytes part hpart _ rfl
      · have hperm := perm_chunksOf input.diff (nodup_append.mp (@nodup_plan sha256 input)).1
        rw [chunksOf, filter_congr fun chunk _ =>
          decide_eq_decide.mpr (mem_filenames_iff hcomplete (pathOf chunk)), ← chunksOf] at hperm
        exact hperm

end Plan

/-! ## A type change -/

/-- The diff of an empty file that became a symbolic link: a removal and an addition. -/
def typeChangeDiff : Bytes :=
  utf8 ("diff --git a/l b/l\ndeleted file mode 100644\n"
    ++ "diff --git a/l b/l\nnew file mode 120000\n@@ -0,0 +1 @@\n+t\n")

/-- The diff of a file that was edited. -/
def editDiff : Bytes := utf8 "diff --git a/l b/l\n@@ -1 +1 @@\n-1\n+2\n"

/-- One changed file. -/
def linkInput (diff : Bytes) : PlanInput where
  changedFiles := [⟨"l", "modified"⟩]
  diff
  generatedPaths _ := false
  headSha := "c0ffee0"
  limits := {}

/-- The digests of the diffs and of the name. -/
def linkDigest (text : Bytes) : String :=
  if text = typeChangeDiff then "9b16cf3c46639b3097736cf076a337460fb6e63d40d7d195457934c8ef33deb0"
  else if text = editDiff then "91484a57fdbc75929ec75cbd7b4788b67a12d822d92dc733924c746df0fa8798"
  else if text = utf8 "l" then "acac86c0e609ca906f632b0e2dacccb2b77d22b0621f20ebece1a4835b93f6f0"
  else ""

theorem countLimits_default : CountLimits defaultPartitionLimits where
  parts := ⟨by decide +kernel, .inl (by decide +kernel)⟩
  files := ⟨by decide +kernel, .inl (by decide +kernel)⟩

theorem lossless_iff_edit : Lossless linkDigest (linkInput editDiff) := by
  refine (lossless_iff linkDigest (linkInput editDiff) countLimits_default (by decide)).mpr ?_
  decide +kernel

/-- A type change has two chunks, and its part gets the first one. -/
theorem typeChange_not_lossless :
    CountLimits (resolveLimits (linkInput typeChangeDiff).limits) ∧
      (linkInput typeChangeDiff).changedFiles.length < 2 ^ 53 ∧ ¬Lossless linkDigest (linkInput typeChangeDiff) := by
  refine ⟨countLimits_default, by decide, fun h => ?_⟩
  have hparts : ∃ part ∈ (planPartitions linkDigest (linkInput typeChangeDiff)).parts, part.filenames = ["l"] := by
    decide +kernel
  obtain ⟨part, hpart, hnames⟩ := hparts
  obtain ⟨pieces, hpieces, hsub⟩ := h.contains part hpart
  rw [partitionDiffBytes_eq] at hpieces
  have hone := (containsChunks_iff (nodup_filenames hpart)).mp ⟨pieces, hpieces, hsub⟩
  rw [hnames] at hone
  have htwo : (chunksAt (linkInput typeChangeDiff).diff "l").length = 2 := by decide +kernel
  have hle := hone "l" (mem_singleton_self _)
  omega

end PrReviewer.Partition
