import PrReviewer.Corpus.DiffPriority

/-!
# The prioritized diff accounts for every chunk

What `prioritizeDiff` does with each chunk (`Fate`), and that its output is never longer than the budget and says this
of every chunk (`prioritizeDiff_exact`).

- The chunks of a rank are placed at one level (`placeBucket_spec`), and take no more than what is left of the budget,
  since the sizes cut at the level fit (`sum_min_waterLevel_le`).
- The reserve holds the manifest of any of the chunks (`length_manifest_le`), so no line of it is dropped.
-/

open Js List

namespace PrReviewer.Corpus

/-! ## Lengths of numbers and lines -/

theorem length_utf8_of_ascii {cs : List Char} (h : ∀ c ∈ cs, c.utf8Size = 1) :
    (utf8 (String.ofList cs)).length = cs.length := by
  rw [utf8, String.toList_ofList]
  induction cs with
  | nil => rfl
  | cons c cs ih =>
    rw [flatMap_cons, length_append, String.length_utf8EncodeChar, h c mem_cons_self,
      ih fun d hd => h d (mem_cons_of_mem _ hd), length_cons, Nat.add_comm]

theorem length_digits (n : Nat) : (digits n).length = (Nat.toDigits 10 n).length := by
  have htext : toString n = String.ofList (Nat.toDigits 10 n) := rfl
  rw [digits, htext]
  refine length_utf8_of_ascii fun c hc => ?_
  have hdigit := Nat.isDigit_of_mem_toDigits (by decide) (by decide) hc
  rw [Char.isDigit, Bool.and_eq_true, decide_eq_true_eq, decide_eq_true_eq] at hdigit
  have hle : c.toNat < 0x80 := Nat.lt_of_le_of_lt (UInt32.le_iff_toNat_le.mp hdigit.2) (by decide)
  have hsize := (utf8Size_le hle).1 (by decide)
  have hpos := Char.utf8Size_pos c
  omega

variable {m n budget : Nat} {xs ys : List Nat} {chunks : List Chunk} {output : Output}
  {chunk : Chunk}

theorem length_digits_le (h : m ≤ n) : (digits m).length ≤ (digits n).length := by
  rw [length_digits, length_digits, Nat.length_toDigits_le_iff (by decide) Nat.length_toDigits_pos]
  exact h.trans_lt ((Nat.length_toDigits_le_iff (by decide) Nat.length_toDigits_pos).mp (Nat.le_refl _))

/-- The two reasons are equally long. -/
theorem length_manifestLine (chunk : Chunk) (status : Status) :
    (manifestLine chunk status).length = (manifestLine chunk .omitted).length := by
  have htext : status.text.length = Status.omitted.text.length := by cases status <;> rfl
  simp only [manifestLine, length_append, htext]

/-! ## The largest lines -/

/-- Some of the numbers sum up to no more than as many of the largest. -/
theorem sum_le_sum_take (hsub : xs.Subperm ys) (hys : ys.Pairwise (· ≥ ·)) {k : Nat}
    (hk : xs.length ≤ k) : xs.sum ≤ (ys.take k).sum := by
  induction ys generalizing xs k with
  | nil =>
    rw [subperm_nil.mp hsub]
    exact Nat.zero_le _
  | cons y ys ih =>
    rw [pairwise_cons] at hys
    cases xs with
    | nil => exact Nat.zero_le _
    | cons x xs =>
      rw [length_cons] at hk
      obtain ⟨k, rfl⟩ : ∃ m, k = m + 1 := ⟨k - 1, by omega⟩
      have hrest := hsub.erase y
      rw [erase_cons_head] at hrest
      rw [take_succ_cons, sum_cons (a := y)]
      by_cases hy : y ∈ x :: xs
      · have hperm := perm_cons_erase hy
        have hlength := hperm.length_eq
        rw [length_cons, length_cons] at hlength
        rw [hperm.sum_eq, sum_cons]
        exact Nat.add_le_add_left (ih hrest hys.2 (by omega)) y
      · rw [erase_of_not_mem hy] at hrest
        have hx := hys.1 x (hrest.subset mem_cons_self)
        rw [sum_cons]
        exact Nat.add_le_add hx (ih ((sublist_cons_self x xs).subperm.trans hrest) hys.2 (by omega))

theorem sum_le_sum_take_insertionSort (hsub : xs.Subperm ys) {k : Nat} (hk : xs.length ≤ k) :
    xs.sum ≤ ((ys.insertionSort (· ≥ ·)).take k).sum :=
  sum_le_sum_take (hsub.trans (perm_insertionSort _ ys).symm.subperm) (pairwise_insertionSort _ ys) hk

/-! ## The water level -/

theorem searchLevel_spec {sizes : List Nat} {avail lo hi : Nat} (h : (sizes.map (min · lo)).sum ≤ avail) :
    (sizes.map (min · (searchLevel sizes avail lo hi))).sum ≤ avail := by
  fun_induction searchLevel sizes avail lo hi with
  | case1 lo hi _ mid hfits ih => exact ih hfits
  | case2 lo hi _ mid _ ih => exact ih h
  | case3 => exact h

/-- The sizes, cut at the water level, fit. -/
theorem sum_min_waterLevel_le (sizes : List Nat) (avail : Nat) :
    (sizes.map (min · (waterLevel sizes avail))).sum ≤ avail := by
  refine searchLevel_spec ?_
  simp

/-! ## What happens to a chunk -/

inductive Fate where
  | whole
  | clipped (kept : Nat)
  | omitted
  deriving DecidableEq

/-- What is emitted of a chunk. -/
def Fate.bytes (data : Bytes) : Fate → Bytes
  | .whole => data
  | .clipped kept => data.take kept ++ clipNote (data.length - kept)
  | .omitted => []

/-- How a chunk is listed. -/
def Fate.status? : Fate → Option Status
  | .whole => none
  | .clipped _ => some .clipped
  | .omitted => some .omitted

/-- The fate of a chunk at a level; in a bucket that fits there is none. -/
def fateAt : Option Nat → Chunk → Fate
  | none, _ => .whole
  | some level, chunk =>
    if chunk.data.length ≤ level then .whole
    else if clipEnd level chunk < minChunkBytes then .omitted
    else .clipped (clipEnd level chunk)

/-- What is emitted of the chunks. -/
def emittedOf (fate : Chunk → Fate) (chunks : List Chunk) : Bytes :=
  chunks.flatMap fun chunk => (fate chunk).bytes chunk.data

/-- The listed chunks, with the reason. -/
def listedOf (fate : Chunk → Fate) (chunks : List Chunk) : List (Chunk × Status) :=
  chunks.filterMap fun chunk => (fate chunk).status?.map (chunk, ·)

theorem length_wholeLines_le (buf : Bytes) (n : Nat) : (Bytes.wholeLines buf n).length ≤ n :=
  (List.rdropWhile_prefix _ _).length_le.trans (length_take_le _ _)

/-- A chunk takes no more than its part of the level. -/
theorem length_fateAt_le (level : Nat) (chunk : Chunk) :
    ((fateAt (some level) chunk).bytes chunk.data).length ≤ min chunk.data.length level := by
  rw [fateAt]
  split
  · next hsmall => exact Nat.le_min.mpr ⟨Nat.le_refl _, hsmall⟩
  split
  · exact Nat.zero_le _
  · next hlarge hlong =>
    have hclip := length_wholeLines_le chunk.data
      (level - (notePrefix.length + (digits chunk.data.length).length + noteSuffix.length))
    have hdigits := length_digits_le (Nat.sub_le chunk.data.length (clipEnd level chunk))
    rw [clipEnd] at hlong hdigits ⊢
    rw [Fate.bytes, clipNote]
    simp only [length_append, length_take, minChunkBytes] at hlong ⊢
    omega

theorem emittedOf_append (fate : Chunk → Fate) (chunks chunks' : List Chunk) :
    emittedOf fate (chunks ++ chunks') = emittedOf fate chunks ++ emittedOf fate chunks' := flatMap_append

theorem listedOf_append (fate : Chunk → Fate) (chunks chunks' : List Chunk) :
    listedOf fate (chunks ++ chunks') = listedOf fate chunks ++ listedOf fate chunks' := filterMap_append

theorem emittedOf_congr {fate fate' : Chunk → Fate} (h : ∀ c ∈ chunks, fate c = fate' c) :
    emittedOf fate chunks = emittedOf fate' chunks :=
  flatMap_congr fun c hc => by rw [h c hc]

theorem listedOf_congr {fate fate' : Chunk → Fate} (h : ∀ c ∈ chunks, fate c = fate' c) :
    listedOf fate chunks = listedOf fate' chunks :=
  filterMap_congr fun c hc => by rw [h c hc]

/-! ## Placing chunks -/

theorem placeChunk_spec (level : Nat) (filled : Filled) (chunk : Chunk) :
    (placeChunk level filled chunk).used =
        filled.used + ((fateAt (some level) chunk).bytes chunk.data).length ∧
      (placeChunk level filled chunk).emitted.flatten =
        filled.emitted.flatten ++ (fateAt (some level) chunk).bytes chunk.data ∧
      (placeChunk level filled chunk).listed = filled.listed ++ listedOf (fateAt (some level)) [chunk] := by
  have hlisted : listedOf (fateAt (some level)) [chunk] =
      ((fateAt (some level) chunk).status?.map (chunk, ·)).toList := by
    rw [listedOf, filterMap_cons, filterMap_nil]
    cases (fateAt (some level) chunk).status? <;> rfl
  rw [hlisted]
  unfold placeChunk fateAt
  dsimp only
  split
  · simp [Fate.bytes, Fate.status?]
  split
  · simp [Fate.bytes, Fate.status?]
  · have hclip : clipEnd level chunk ≤ chunk.data.length :=
      ((List.rdropWhile_prefix _ _).length_le).trans (length_take_le' _ _)
    simp [Fate.bytes, Fate.status?, Nat.min_eq_left hclip, Nat.add_assoc]

theorem foldl_placeChunk_spec (level : Nat) (filled : Filled) (bucket : List Chunk) :
    (bucket.foldl (placeChunk level) filled).used =
        filled.used + (emittedOf (fateAt (some level)) bucket).length ∧
      (bucket.foldl (placeChunk level) filled).emitted.flatten =
        filled.emitted.flatten ++ emittedOf (fateAt (some level)) bucket ∧
      (bucket.foldl (placeChunk level) filled).listed = filled.listed ++ listedOf (fateAt (some level)) bucket := by
  induction bucket generalizing filled with
  | nil => simp [emittedOf, listedOf]
  | cons chunk bucket ih =>
    obtain ⟨hused, hemitted, hlisted⟩ := placeChunk_spec level filled chunk
    obtain ⟨hused', hemitted', hlisted'⟩ := ih (placeChunk level filled chunk)
    rw [foldl_cons, hused', hemitted', hlisted', hused, hemitted, hlisted]
    have hcons : emittedOf (fateAt (some level)) (chunk :: bucket) =
        (fateAt (some level) chunk).bytes chunk.data ++ emittedOf (fateAt (some level)) bucket := flatMap_cons
    refine ⟨?_, ?_, ?_⟩
    · rw [hcons, length_append, Nat.add_assoc]
    · rw [hcons, append_assoc]
    · rw [append_assoc, ← listedOf_append, singleton_append]

/-- The chunks of a bucket take no more than the sizes, cut at the level. -/
theorem length_emittedOf_le (level : Nat) (bucket : List Chunk) :
    (emittedOf (fateAt (some level)) bucket).length ≤ ((bucket.map (·.data.length)).map (min · level)).sum := by
  induction bucket with
  | nil => exact Nat.le_refl 0
  | cons chunk bucket ih =>
    have hchunk := length_fateAt_le level chunk
    rw [emittedOf, flatMap_cons, length_append, map_cons, map_cons, sum_cons]
    exact Nat.add_le_add hchunk ih

/-- What the chunks of a rank do to the output. -/
structure Spends (fate : Chunk → Fate) (chunks : List Chunk) (output output' : Output) : Prop where
  nonneg : 0 ≤ output'.avail
  avail : output'.avail + (emittedOf fate chunks).length = output.avail
  emitted : output'.emitted.flatten = output.emitted.flatten ++ emittedOf fate chunks
  listed : output'.listed = output.listed ++ listedOf fate chunks

theorem placeBucket_spec (h : 0 ≤ output.avail) (bucket : List Chunk) :
    ∃ level, Spends (fateAt level) bucket output (placeBucket output bucket) := by
  have hall : emittedOf (fateAt none) bucket = (bucket.map (·.data)).flatten := by
    simp [emittedOf, fateAt, Fate.bytes, flatMap_def]
  have hnone : listedOf (fateAt none) bucket = [] := by
    simp [listedOf, fateAt, Fate.status?]
  unfold placeBucket
  dsimp only
  split
  · next hempty =>
    subst hempty
    exact ⟨none, h, by simp [emittedOf], by simp [emittedOf], by simp [listedOf]⟩
  split
  · next hfits =>
    have hlength : (emittedOf (fateAt none) bucket).length = (bucket.map (·.data.length)).sum := by
      rw [hall, length_flatten, map_map]
      rfl
    refine ⟨none, ?_, ?_, ?_, ?_⟩
    · exact Int.sub_nonneg_of_le hfits
    · rw [hlength, Int.sub_add_cancel]
    · rw [hall, flatten_append]
    · rw [hnone, append_nil]
  · obtain ⟨level, hlevel⟩ : ∃ level, level = waterLevel (bucket.map (·.data.length)) output.avail.toNat := ⟨_, rfl⟩
    rw [← hlevel]
    obtain ⟨hused, hemitted, hlisted⟩ := foldl_placeChunk_spec level ⟨0, output.emitted, output.listed⟩ bucket
    rw [Nat.zero_add] at hused
    have hle := length_emittedOf_le level bucket
    have hsum := sum_min_waterLevel_le (bucket.map (·.data.length)) output.avail.toNat
    rw [← hlevel] at hsum
    refine ⟨some level, ?_, ?_, hemitted, hlisted⟩
    · dsimp only
      omega
    · dsimp only
      omega

/-- The buckets of several ranks, with the levels of the ranks. -/
theorem foldl_placeBucket_spec (h : 0 ≤ output.avail) {bucketOf : Nat → List Chunk}
    (hrank : ∀ r, ∀ c ∈ bucketOf r, c.rank = r) {rs : List Nat} (hrs : rs.Nodup) :
    ∃ level : Nat → Option Nat, Spends (fun c => fateAt (level c.rank) c) (rs.flatMap bucketOf) output
      ((rs.map bucketOf).foldl placeBucket output) := by
  induction rs generalizing output with
  | nil => exact ⟨fun _ => none, h, by simp [emittedOf], by simp [emittedOf], by simp [listedOf]⟩
  | cons r rs ih =>
    rw [nodup_cons] at hrs
    obtain ⟨l, hfirst⟩ := placeBucket_spec h (bucketOf r)
    obtain ⟨level, hrest⟩ := ih hfirst.nonneg hrs.2
    refine ⟨Function.update level r l, ?_⟩
    have hhere : ∀ c ∈ bucketOf r, fateAt (Function.update level r l c.rank) c = fateAt l c := by
      intro c hc
      rw [hrank r c hc, Function.update_self]
    have hthere : ∀ c ∈ rs.flatMap bucketOf,
        fateAt (Function.update level r l c.rank) c = fateAt (level c.rank) c := by
      intro c hc
      obtain ⟨r', hr', hc⟩ := mem_flatMap.mp hc
      rw [Function.update_of_ne]
      rintro heq
      rw [hrank r' c hc] at heq
      exact hrs.1 (heq ▸ hr')
    have hemitted := emittedOf_congr hhere
    have hemitted' := emittedOf_congr hthere
    have hlisted := listedOf_congr hhere
    have hlisted' := listedOf_congr hthere
    rw [map_cons, foldl_cons, flatMap_cons]
    refine ⟨hrest.nonneg, ?_, ?_, ?_⟩
    · rw [emittedOf_append, hemitted, hemitted', length_append, ← hfirst.avail, ← hrest.avail]
      push_cast
      omega
    · rw [emittedOf_append, hemitted, hemitted', hrest.emitted, hfirst.emitted, append_assoc]
    · rw [listedOf_append, hlisted, hlisted', hrest.listed, hfirst.listed, append_assoc]

/-! ## The manifest -/

/-- The lines of the manifest. -/
def manifestOf (fate : Chunk → Fate) (chunks : List Chunk) : List Bytes :=
  (listedOf fate chunks).map fun (chunk, status) => manifestLine chunk status

/-- The chunks that are not emitted whole. -/
def notWhole (fate : Chunk → Fate) (chunks : List Chunk) : Nat := chunks.countP fun chunk => fate chunk ≠ .whole

theorem length_listedOf (fate : Chunk → Fate) (chunks : List Chunk) :
    (listedOf fate chunks).length = notWhole fate chunks := by
  rw [listedOf, length_filterMap_eq_countP, notWhole]
  refine countP_congr fun chunk _ => ?_
  cases fate chunk <;> simp [Fate.status?]

theorem length_manifestHeader_le (h : m ≤ n) : (manifestHeader m).length ≤ (manifestHeader n).length := by
  have hdigits := length_digits_le h
  simp only [manifestHeader, length_append]
  omega

theorem length_moreLine_le (h : m ≤ n) : (moreLine m).length ≤ (moreLine n).length := by
  have hdigits := length_digits_le h
  simp only [moreLine, length_append]
  omega

theorem sublist_listedOf (fate : Chunk → Fate) (chunks : List Chunk) :
    ((listedOf fate chunks).map Prod.fst).Sublist chunks := by
  induction chunks with
  | nil => exact nil_sublist _
  | cons chunk chunks ih =>
    rw [listedOf, filterMap_cons]
    cases (fate chunk).status? with
    | none => exact ih.cons chunk
    | some status => exact ih.cons_cons chunk

/-- The lengths of the lines are among those that the reserve is made for. -/
theorem map_length_manifestOf (fate : Chunk → Fate) (chunks : List Chunk) :
    ((manifestOf fate chunks).map List.length).Sublist
      (chunks.map fun chunk => (manifestLine chunk .omitted).length) := by
  have hlengths : (manifestOf fate chunks).map List.length =
      ((listedOf fate chunks).map Prod.fst).map fun chunk => (manifestLine chunk .omitted).length := by
    rw [manifestOf, map_map, map_map]
    exact map_congr_left fun listed _ => length_manifestLine listed.1 listed.2
  rw [hlengths]
  exact (sublist_listedOf fate chunks).map _

theorem length_closeLine_le (body : Bytes) : (closeLine body).length ≤ body.length + 1 := by
  unfold closeLine
  split
  · rw [length_append, length_singleton]
  · exact Nat.le_succ _

/-- The reserve holds the marker and the manifest. -/
theorem length_render_le {order : List Chunk} (horder : order.Perm chunks) (fate : Chunk → Fate)
    (body marker : Bytes) :
    (render (closeLine body) marker (listedOf fate order) (listedOf fate order).length).length ≤
      body.length + reserve chunks marker := by
  have hcount : (listedOf fate order).length ≤ chunks.length := by
    rw [length_listedOf, ← horder.length_eq]
    exact countP_le_length
  have hclose := length_closeLine_le body
  have hheader := length_manifestHeader_le hcount
  have hlines : (manifestOf fate order).length = (listedOf fate order).length := length_map _
  have htake : (manifestOf fate order).take (listedOf fate order).length = manifestOf fate order := by
    rw [← hlines, take_length]
  have hsub : (((manifestOf fate order).take manifestMaxLines).map List.length).Subperm
      (chunks.map fun chunk => (manifestLine chunk .omitted).length) :=
    ((((take_sublist _ _).map _).trans (map_length_manifestOf fate order)).subperm).trans
      (horder.map fun chunk => (manifestLine chunk .omitted).length).subperm
  have hshort : (((manifestOf fate order).take manifestMaxLines).map List.length).length ≤ manifestMaxLines := by
    rw [length_map]
    exact length_take_le _ _
  have hsum := sum_le_sum_take_insertionSort hsub hshort
  have hmore : (if (listedOf fate order).length > manifestMaxLines then
        moreLine ((listedOf fate order).length - manifestMaxLines) else []).length ≤
      if chunks.length > manifestMaxLines then (moreLine chunks.length).length else 0 := by
    split
    · next hmany =>
      rw [if_pos (by omega)]
      exact length_moreLine_le (by omega)
    · exact Nat.zero_le _
  unfold render reserve
  dsimp only
  rw [← manifestOf, htake, hlines]
  simp only [length_append, length_singleton, length_flatten]
  omega

theorem fitLines_of_fits {rendered : Nat → Bytes} (h : (rendered n).length ≤ budget) :
    fitLines rendered budget n = rendered n := by
  cases n with
  | zero => rfl
  | succ n => exact if_pos h

/-! ## The bound -/

theorem length_dots_le (budget : Nat) : (dots budget).length ≤ budget := by
  rw [dots, length_replicate]
  exact Nat.min_le_left _ _

theorem length_truncatePlain_le (data : Bytes) (budget : Nat) (marker : Bytes) :
    (truncatePlain data budget marker).length ≤ budget := by
  unfold truncatePlain
  dsimp only
  split
  · assumption
  split
  · exact length_dots_le budget
  · next hsuffix =>
    obtain ⟨clip, hclip⟩ : ∃ clip, clip = data.take (budget - (Bytes.nl :: marker ++ [Bytes.nl]).length) := ⟨_, rfl⟩
    rw [← hclip]
    have hdecode := length_encoded_decodeUtf8Ignore_le (clip.take (lineEnd clip))
    rw [encoded, String.ofList_toList] at hdecode
    have htake : (clip.take (lineEnd clip)).length ≤ clip.length := length_take_le' _ _
    have hlength : clip.length ≤ budget - (Bytes.nl :: marker ++ [Bytes.nl]).length := by
      rw [hclip]
      exact length_take_le _ _
    rw [length_append]
    omega

/-- The output is never longer than the budget. -/
theorem length_prioritizeDiff_le (generated : Bytes → Bool) (marker diff : Bytes) (budget : Nat) :
    (prioritizeDiff generated marker diff budget).length ≤ budget := by
  rw [prioritizeDiff]
  split
  · assumption
  dsimp only
  split
  · exact length_truncatePlain_le _ _ _
  split
  · exact length_dots_le budget
  split
  · exact length_truncatePlain_le _ _ _
  · next hfits => exact Nat.not_lt.mp hfits

/-! ## The chunks of a diff -/

theorem rankPath_mem (path : Bytes) (size : Nat) (generated : Bytes → Bool) : rankPath path size generated ∈ ranks := by
  unfold rankPath
  dsimp only
  split_ifs <;> decide

variable {generated : Bytes → Bool} {diff : Bytes}

theorem rank_mem (h : chunk ∈ chunksOf generated diff) : chunk.rank ∈ ranks := by
  obtain ⟨index, hindex, rfl⟩ := mem_mapIdx.mp h
  exact rankPath_mem _ _ _

theorem map_data_chunksOf (generated : Bytes → Bool) (diff : Bytes) :
    (chunksOf generated diff).map Chunk.data = (splitChunks diff).2.map Prod.snd := by
  rw [chunksOf, mapIdx_eq_zipIdx_map, map_map]
  conv_rhs => rw [← zipIdx_map_fst 0 (splitChunks diff).2, map_map]
  rfl

theorem map_index_chunksOf (generated : Bytes → Bool) (diff : Bytes) :
    (chunksOf generated diff).map Chunk.index = List.range (chunksOf generated diff).length := by
  rw [chunksOf, length_mapIdx, mapIdx_eq_zipIdx_map, map_map, range_eq_range',
    ← zipIdx_map_snd 0 (splitChunks diff).2]
  rfl

theorem perm_flatMap_ranks (h : ∀ c ∈ chunks, c.rank ∈ ranks) :
    (ranks.flatMap (groupOf Chunk.rank chunks)).Perm chunks := by
  have hnodup : ranks.Nodup := by decide
  have hperm := perm_flatMap_groupOf Chunk.rank chunks hnodup
  rwa [filter_eq_self.mpr fun c hc => decide_eq_true (h c hc)] at hperm

/-! ## Every diff -/

/-- A chunk that is emitted whole is smaller than one of its rank that is not. -/
theorem length_lt_of_fateAt {level : Nat → Option Nat} {chunk' : Chunk} (hrank : chunk.rank = chunk'.rank)
    (h : fateAt (level chunk.rank) chunk = .whole) (h' : fateAt (level chunk'.rank) chunk' ≠ .whole) :
    chunk.data.length < chunk'.data.length := by
  rw [hrank] at h
  cases hlevel : level chunk'.rank with
  | none =>
    rw [hlevel] at h'
    exact absurd rfl h'
  | some l =>
    rw [hlevel, fateAt] at h h'
    have hsmall : chunk.data.length ≤ l := by
      by_contra hlarge
      rw [if_neg hlarge] at h
      split at h <;> cases h
    have hlarge : ¬chunk'.data.length ≤ l := fun hsmall' => h' (if_pos hsmall')
    omega

theorem kept_of_fateAt {level : Option Nat} {kept : Nat} (h : fateAt level chunk = .clipped kept) :
    minChunkBytes ≤ kept ∧ kept < chunk.data.length := by
  cases level with
  | none => cases h
  | some level =>
    rw [fateAt] at h
    split at h
    · cases h
    split at h
    · cases h
    · next hlarge hlong =>
      rw [← Fate.clipped.inj h]
      have hclip := length_wholeLines_le chunk.data
        (level - (notePrefix.length + (digits chunk.data.length).length + noteSuffix.length))
      rw [← clipEnd] at hclip
      exact ⟨Nat.not_lt.mp hlong, by omega⟩

theorem keptPreamble_prefix (preamble : Bytes) (reserved budget : Nat) :
    keptPreamble preamble reserved budget <+: preamble := by
  unfold keptPreamble
  split
  · exact (List.rdropWhile_prefix _ _).trans (List.take_prefix _ _)
  · exact prefix_rfl

theorem length_keptPreamble_le {reserved : Nat} (h : reserved ≤ budget) (preamble : Bytes) :
    (keptPreamble preamble reserved budget).length + reserved ≤ budget := by
  unfold keptPreamble
  split
  · have hlength := length_wholeLines_le preamble (budget - reserved)
    omega
  · next hfits => exact Nat.not_lt.mp hfits

/-- The output for the fates of the chunks. -/
def accounted (preamble marker : Bytes) (fate : Chunk → Fate) (order : List Chunk) : Bytes :=
  closeLine (preamble ++ emittedOf fate order) ++ marker ++ [Bytes.nl] ++ manifestHeader (notWhole fate order) ++
    ((manifestOf fate order).take manifestMaxLines).flatten ++
    if notWhole fate order > manifestMaxLines then moreLine (notWhole fate order - manifestMaxLines) else []

theorem render_eq (preamble marker : Bytes) (fate : Chunk → Fate) (order : List Chunk) :
    render (closeLine (preamble ++ emittedOf fate order)) marker (listedOf fate order) (listedOf fate order).length =
      accounted preamble marker fate order := by
  have hlines : (manifestOf fate order).length = (listedOf fate order).length := length_map _
  have htake : (manifestOf fate order).take (listedOf fate order).length = manifestOf fate order := by
    rw [← hlines, take_length]
  unfold render accounted
  dsimp only
  rw [← manifestOf, htake, hlines, length_listedOf]

/-- With room for the reserve, the output accounts for every chunk. -/
theorem prioritizeDiff_eq {marker : Bytes} (hlong : budget < diff.length)
    (hne : chunksOf generated diff ≠ []) (hreserve : reserve (chunksOf generated diff) marker ≤ budget) :
    ∃ (level : Nat → Option Nat) (order : List Chunk), order.Perm (chunksOf generated diff) ∧
      prioritizeDiff generated marker diff budget =
        accounted (keptPreamble (splitChunks diff).1 (reserve (chunksOf generated diff) marker) budget) marker
          (fun c => fateAt (level c.rank) c) order := by
  obtain ⟨chunks, hchunks⟩ : ∃ chunks, chunks = chunksOf generated diff := ⟨_, rfl⟩
  obtain ⟨preamble, hpreamble⟩ :
    ∃ preamble, preamble = keptPreamble (splitChunks diff).1 (reserve chunks marker) budget := ⟨_, rfl⟩
  obtain ⟨ordered, hordered⟩ : ∃ ordered, ordered = ranks.flatMap (groupOf Chunk.rank chunks) := ⟨_, rfl⟩
  have hrank : ∀ c ∈ chunks, c.rank ∈ ranks := fun c hc => rank_mem (hchunks ▸ hc)
  have hperm : ordered.Perm chunks := by
    rw [hordered]
    exact perm_flatMap_ranks hrank
  have horder : (ranks.flatMap (groupOf Chunk.rank ordered)).Perm chunks :=
    (perm_flatMap_ranks fun c hc => hrank c (hperm.subset hc)).trans hperm
  rw [← hchunks] at hne hreserve ⊢
  rw [← hpreamble]
  have hroom := length_keptPreamble_le hreserve (splitChunks diff).1
  rw [← hpreamble] at hroom
  have hmarker : ¬marker.length + 2 > budget := by
    rw [reserve] at hreserve
    omega
  have hstart : (0 : Int) ≤ (⟨(budget : Int) - preamble.length - reserve chunks marker, [], []⟩ : Output).avail := by
    dsimp only
    omega
  have hgroup : ∀ r, ∀ c ∈ groupOf Chunk.rank ordered r, c.rank = r := fun r c hc => (mem_groupOf.mp hc).2
  have hnodup : ranks.Nodup := by decide
  obtain ⟨level, hspends⟩ := foldl_placeBucket_spec hstart hgroup hnodup
  rw [hordered, ← placeRanks, ← hordered] at hspends
  obtain ⟨order, horder'⟩ : ∃ order, order = ranks.flatMap (groupOf Chunk.rank ordered) := ⟨_, rfl⟩
  obtain ⟨fate, hfate⟩ : ∃ fate : Chunk → Fate, fate = fun c => fateAt (level c.rank) c := ⟨_, rfl⟩
  rw [← horder'] at horder
  rw [← horder', ← hfate] at hspends
  refine ⟨level, order, horder, ?_⟩
  rw [← hfate]
  obtain ⟨hnonneg, havail, hemitted, hlisted⟩ := hspends
  rw [flatten_nil, nil_append] at hemitted
  rw [nil_append] at hlisted
  have hfits := length_render_le horder fate (preamble ++ emittedOf fate order) marker
  have hbudget : (render (closeLine (preamble ++ emittedOf fate order)) marker (listedOf fate order)
      (listedOf fate order).length).length ≤ budget := by
    rw [length_append] at hfits
    dsimp only at havail
    omega
  rw [prioritizeDiff, if_neg (Nat.not_le.mpr hlong)]
  dsimp only
  rw [← hchunks, if_neg hne, if_neg hmarker, ← hpreamble, hemitted, hlisted, fitLines_of_fits hbudget,
    if_neg (Nat.not_lt.mpr hbudget), render_eq]

/-- The output is never longer than the budget; a diff that fits stays as it is. Else, with room for the reserve, every
chunk is emitted whole, or listed as clipped behind the bytes that are kept or as omitted. -/
theorem prioritizeDiff_exact (generated : Bytes → Bool) (marker diff : Bytes) (budget : Nat) :
    (prioritizeDiff generated marker diff budget).length ≤ budget ∧
    (diff.length ≤ budget → prioritizeDiff generated marker diff budget = diff) ∧
    (splitChunks diff).1 ++ ((chunksOf generated diff).map Chunk.data).flatten = diff ∧
    (chunksOf generated diff).map Chunk.index = List.range (chunksOf generated diff).length ∧
    (budget < diff.length → reserve (chunksOf generated diff) marker ≤ budget →
      (chunksOf generated diff = [] ∧
        prioritizeDiff generated marker diff budget = truncatePlain diff budget marker) ∨
      ∃ preamble fate order, preamble <+: (splitChunks diff).1 ∧ order.Perm (chunksOf generated diff) ∧
        prioritizeDiff generated marker diff budget = accounted preamble marker fate order ∧
        (∀ c ∈ order, ∀ kept, fate c = .clipped kept → minChunkBytes ≤ kept ∧ kept < c.data.length) ∧
        ∀ c ∈ order, ∀ c' ∈ order, c.rank = c'.rank → fate c = .whole → fate c' ≠ .whole →
          c.data.length < c'.data.length) := by
  refine ⟨length_prioritizeDiff_le generated marker diff budget, fun h => if_pos h, ?_,
    map_index_chunksOf generated diff, fun hlong hreserve => ?_⟩
  · rw [map_data_chunksOf, splitChunks_flatten]
  by_cases hne : chunksOf generated diff = []
  · left
    refine ⟨hne, ?_⟩
    rw [prioritizeDiff, if_neg (Nat.not_le.mpr hlong)]
    exact if_pos hne
  · right
    obtain ⟨level, order, horder, hout⟩ := prioritizeDiff_eq hlong hne hreserve
    exact ⟨_, _, order, keptPreamble_prefix _ _ _, horder, hout, fun c _ kept hkept => kept_of_fateAt hkept,
      fun c _ c' _ hrank hwhole hcut => length_lt_of_fateAt hrank hwhole hcut⟩

end PrReviewer.Corpus
