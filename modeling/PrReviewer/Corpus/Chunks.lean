import PrReviewer.Js.Bytes

/-!
# The chunks of a unified diff

`splitChunks` and `rankPath` of `src/corpus/diff-priority.ts`, and `decodeUtf8Ignore` of
`src/corpus/truncate.ts`. A chunk starts at each line that begins with `diff --git`.

- `splitChunks_flatten`: the preamble and the chunks, joined, are the diff.
- `chunk_ne_nil`: no chunk is empty.

The set of generated paths is a predicate on the bytes of a path.
-/

open Js List

namespace PrReviewer.Corpus

/-! ## Decoding -/

/-- The length of a sequence and its first bits, from its first byte. -/
def leadingByte (b : UInt8) : Option (Nat × Nat) :=
  if b < 0x80 then some (1, b.toNat)
  else if b &&& 0xe0 = 0xc0 then some (2, (b &&& 0x1f).toNat)
  else if b &&& 0xf0 = 0xe0 then some (3, (b &&& 0x0f).toNat)
  else if b &&& 0xf8 = 0xf0 then some (4, (b &&& 0x07).toNat)
  else none

/-- The valid sequence at the front, with its length. -/
def decodeSequence (data : Bytes) : Option (Char × Nat) :=
  match data.head?.bind leadingByte with
  | none => none
  | some (length, bits) =>
    if data.length < length then none
    else
      let continuation := Bytes.subarray data 1 length
      let cp := continuation.foldl (fun cp b => cp * 64 + (b &&& 0x3f).toNat) bits
      let overlong :=
        (length = 2 ∧ cp < 0x80) ∨ (length = 3 ∧ cp < 0x800) ∨ (length = 4 ∧ cp < 0x10000)
      let surrogate := 0xd800 ≤ cp ∧ cp ≤ 0xdfff
      if continuation.any (fun b => b &&& 0xc0 ≠ 0x80) ∨ overlong ∨ surrogate ∨ 0x10ffff < cp then none
      else some (Char.ofNat cp, length)

/-- The characters from here on; a byte that starts no valid sequence is dropped. -/
def decodeFrom : Nat → Bytes → List Char
  | 0, _ => []
  | _ + 1, [] => []
  | fuel + 1, b :: rest =>
    match decodeSequence (b :: rest) with
    | some (c, length) => c :: decodeFrom fuel ((b :: rest).drop length)
    | none => decodeFrom fuel rest

def decodeUtf8Ignore (data : Bytes) : String := String.ofList (decodeFrom data.length data)

/-! ## Chunks -/

/-- `CHUNK_HEADER`. -/
def chunkHeader : Bytes := utf8 "diff --git "

/-- Where a line begins with the header. -/
def chunkStarts (buf : Bytes) : List Nat :=
  (List.range buf.length).filter fun found =>
    chunkHeader.isPrefixOf (buf.drop found) && decide (Bytes.AtLineStart (buf.take found))

/-- The path on the new side of the header line, without quotes. -/
def chunkPath (data : Bytes) : Bytes :=
  let header := (data.takeWhile (· ≠ Bytes.nl)).drop chunkHeader.length
  let quoted := if header.getLast? = some 0x22 then Bytes.lastIndexOf? header (utf8 " \x22b/") else none
  match quoted with
  | some quoted => Bytes.subarray header (quoted + 4) (header.length - 1)
  | none =>
    match Bytes.lastIndexOf? header (utf8 " b/") with
    | some plain => header.drop (plain + 3)
    | none => header

/-- The bytes from one start up to the next. -/
def slices (buf : Bytes) : List Nat → List Bytes
  | [] => []
  | [start] => [Bytes.subarray buf start buf.length]
  | start :: stop :: starts => Bytes.subarray buf start stop :: slices buf (stop :: starts)

/-- The preamble, and the chunks with their paths. -/
def splitChunks (diff : Bytes) : Bytes × List (Bytes × Bytes) :=
  match chunkStarts diff with
  | [] => (diff, [])
  | start :: starts =>
    (diff.take start, (slices diff (start :: starts)).map fun data => (chunkPath data, data))

theorem pairwise_chunkStarts (buf : Bytes) : (chunkStarts buf).Pairwise (· < ·) :=
  pairwise_lt_range.filter _

theorem chunkStarts_lt {buf : Bytes} {start : Nat} (h : start ∈ chunkStarts buf) : start < buf.length :=
  mem_range.mp (mem_filter.mp h).1

theorem subarray_append_drop (buf : Bytes) {start stop : Nat} (h : start ≤ stop) :
    Bytes.subarray buf start stop ++ buf.drop stop = buf.drop start := by
  have hdrop : buf.drop stop = (buf.drop start).drop (stop - start) := by
    rw [drop_drop]
    congr 1
    omega
  rw [Bytes.subarray, drop_take, hdrop, take_append_drop]

theorem subarray_length (buf : Bytes) (start : Nat) : Bytes.subarray buf start buf.length = buf.drop start := by
  rw [Bytes.subarray, take_length]

/-- The slices are what stands behind the first start. -/
theorem flatten_slices (buf : Bytes) {start : Nat} {starts : List Nat} (h : (start :: starts).Pairwise (· < ·)) :
    (slices buf (start :: starts)).flatten = buf.drop start := by
  induction starts generalizing start with
  | nil => rw [slices, flatten_singleton, subarray_length]
  | cons stop starts ih =>
    have hlt : start < stop := (pairwise_cons.mp h).1 stop mem_cons_self
    rw [slices, flatten_cons, ih (pairwise_cons.mp h).2, subarray_append_drop buf hlt.le]

theorem splitChunks_flatten (diff : Bytes) :
    (splitChunks diff).1 ++ ((splitChunks diff).2.map Prod.snd).flatten = diff := by
  unfold splitChunks
  split
  · simp
  · next start starts hstarts =>
    have hslices := flatten_slices diff (hstarts ▸ pairwise_chunkStarts diff)
    rw [map_map]
    change diff.take start ++ ((slices diff (start :: starts)).map id).flatten = diff
    rw [map_id, hslices, take_append_drop]

theorem slice_ne_nil {buf : Bytes} {starts : List Nat} (h : starts.Pairwise (· < ·))
    (hlt : ∀ start ∈ starts, start < buf.length) : [] ∉ slices buf starts := by
  induction starts with
  | nil => exact not_mem_nil
  | cons start starts ih =>
    have hstart := hlt start mem_cons_self
    cases starts with
    | nil =>
      rw [slices, mem_singleton, subarray_length]
      intro hnil
      have hlength := congrArg List.length hnil
      rw [length_drop, length_nil] at hlength
      omega
    | cons stop starts =>
      rw [pairwise_cons] at h
      rw [slices, mem_cons, not_or]
      refine ⟨fun hnil => ?_, ih h.2 fun s hs => hlt s (mem_cons_of_mem _ hs)⟩
      have hle := h.1 stop mem_cons_self
      have hlength := congrArg List.length hnil
      rw [Bytes.subarray, length_drop, length_take, length_nil] at hlength
      omega

theorem chunk_ne_nil {diff : Bytes} {chunk : Bytes × Bytes} (h : chunk ∈ (splitChunks diff).2) : chunk.2 ≠ [] := by
  unfold splitChunks at h
  split at h
  · exact nomatch h
  · next start starts hstarts =>
    obtain ⟨data, hdata, rfl⟩ := mem_map.mp h
    have hslices := slice_ne_nil (hstarts ▸ pairwise_chunkStarts diff)
      fun s hs => @chunkStarts_lt diff s (hstarts ▸ hs)
    exact fun hnil => hslices (hnil ▸ hdata)

/-! ## Ranks -/

/-- `RANK_SOURCE`. -/
def rankSource : Nat := 0

/-- `RANK_BULK`. -/
def rankBulk : Nat := 2

/-- `RANK_GENERATED`. -/
def rankGenerated : Nat := 3

/-- `RANKS`. -/
def ranks : List Nat := [rankSource, rankBulk, rankGenerated]

/-- `BULK_DATA_BYTES`. -/
def bulkDataBytes : Nat := 32 * 1024

/-- `LOCK_BASENAMES`. -/
def lockBasenames : List String :=
  ["package-lock.json", "yarn.lock", "pnpm-lock.yaml", "cargo.lock", "go.sum", "poetry.lock",
    "gemfile.lock", "composer.lock"]

/-- `GENERATED_SUFFIXES`. -/
def generatedSuffixes : List String := [".lock", ".min.js", ".min.css", ".snap", ".pb.go"]

/-- `GENERATED_DIRS`. -/
def generatedDirs : List String := ["dist", "build", "vendor", "node_modules", "__snapshots__"]

/-- `BULK_TOKENS`. -/
def bulkTokens : List String := ["fixture", "testdata", "snapshot", "golden"]

/-- `DATA_SUFFIXES`. -/
def dataSuffixes : List String := [".json", ".jsonl", ".csv", ".svg", ".txt", ".xml"]

/-- ASCII letters only. -/
def asciiLower (data : Bytes) : Bytes :=
  data.map fun b => if 0x41 ≤ b ∧ b ≤ 0x5a then b + 0x20 else b

def endsWithAny (text : Bytes) (suffixes : List String) : Bool :=
  suffixes.any fun suffix => (utf8 suffix).isSuffixOf text

/-- 0 source, configuration and documentation, 2 bulk data, 3 generated or a lock file. -/
def rankPath (path : Bytes) (size : Nat) (generated : Bytes → Bool) : Nat :=
  if generated path then rankGenerated
  else
    let segments := (asciiLower path).splitOn 0x2f
    let base := segments.getLast?.getD []
    if (lockBasenames.map utf8).contains base ∨ endsWithAny base generatedSuffixes then rankGenerated
    else if segments.dropLast.any (generatedDirs.map utf8).contains then rankGenerated
    else if Bytes.includes base (utf8 ".generated.") ∨ Bytes.includes base (utf8 "_generated.") then rankGenerated
    else if segments.any fun segment => bulkTokens.any fun token => Bytes.includes segment (utf8 token) then
      rankBulk
    else if endsWithAny base dataSuffixes ∧ size > bulkDataBytes then rankBulk
    else rankSource

end PrReviewer.Corpus
