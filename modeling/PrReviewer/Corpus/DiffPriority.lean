import PrReviewer.Corpus.Truncate
import PrReviewer.Js.Group
import Mathlib.Data.List.Sort

/-!
# The diff within its budget

`prioritizeDiff` of `src/corpus/diff-priority.ts`: the chunks of a diff that does not fit, rank by rank. The chunks of
a rank that does not fit whole share what is left of the budget: each gets as many bytes as the water level, and one
that is larger is clipped or left out. A manifest at the end lists the chunks that are not whole.

A budget is a natural number, and the generated set a predicate on the bytes of a path.
-/

open Js

namespace PrReviewer.Corpus

/-! ## Constants -/

/-- `DEFAULT_DIFF_MARKER`. -/
def defaultDiffMarker : Bytes := utf8 "…[diff truncated to fit context budget]"

/-- `MIN_CHUNK_BYTES`. -/
def minChunkBytes : Nat := 512

/-- `MANIFEST_MAX_LINES`. -/
def manifestMaxLines : Nat := 200

/-- `NOTE_PREFIX`. -/
def notePrefix : Bytes := utf8 "…[file diff clipped: "

/-- `NOTE_SUFFIX`. -/
def noteSuffix : Bytes := utf8 " more bytes]\n"

/-- `enc(String(n))`. -/
def digits (n : Nat) : Bytes := utf8 (toString n)

/-! ## Chunks -/

structure Chunk where
  index : Nat
  path : Bytes
  data : Bytes
  adds : Nat
  dels : Nat
  rank : Nat
  deriving DecidableEq

/-- A line that begins with the sign, and is not that of a file header. -/
def isChange (sign : UInt8) (line : Bytes) : Bool :=
  line.head? == some sign && !([sign, sign, sign, 0x20] : Bytes).isPrefixOf line

/-- `countChanges`: the added and the deleted lines. -/
def countChanges (data : Bytes) : Nat × Nat :=
  ((data.splitOn Bytes.nl).countP (isChange 0x2b), (data.splitOn Bytes.nl).countP (isChange 0x2d))

/-- The chunks of a diff. -/
def chunksOf (generated : Bytes → Bool) (diff : Bytes) : List Chunk :=
  (splitChunks diff).2.mapIdx fun index raw =>
    { index, path := raw.1, data := raw.2, adds := (countChanges raw.2).1, dels := (countChanges raw.2).2
      rank := rankPath raw.1 raw.2.length generated }

/-! ## The manifest -/

/-- Why a chunk is listed. -/
inductive Status where
  | omitted
  | clipped
  deriving DecidableEq

/-- `OMITTED` and `CLIPPED`. -/
def Status.text : Status → Bytes
  | .omitted => utf8 "omitted"
  | .clipped => utf8 "clipped"

def manifestLine (chunk : Chunk) (status : Status) : Bytes :=
  utf8 "- " ++ chunk.path ++ utf8 " (+" ++ digits chunk.adds ++ utf8 "/-" ++ digits chunk.dels ++ utf8 ") " ++
    status.text ++ utf8 "\n"

def moreLine (count : Nat) : Bytes := utf8 "- … and " ++ digits count ++ utf8 " more\n"

def manifestHeader (count : Nat) : Bytes := utf8 "Files omitted from this diff (" ++ digits count ++ utf8 "):\n"

/-- The bytes that are kept free for the marker and the manifest. -/
def reserve (chunks : List Chunk) (marker : Bytes) : Nat :=
  let lineLengths := (chunks.map fun chunk => (manifestLine chunk .omitted).length).insertionSort (· ≥ ·)
  1 + marker.length + 1 + (manifestHeader chunks.length).length + (lineLengths.take manifestMaxLines).sum +
    if chunks.length > manifestMaxLines then (moreLine chunks.length).length else 0

/-! ## Chunks of a rank -/

/-- The largest level up to `hi` at which the sizes, cut there, fit. -/
def searchLevel (sizes : List Nat) (avail lo hi : Nat) : Nat :=
  if lo < hi then
    let mid := (lo + hi + 1) / 2
    if (sizes.map (min · mid)).sum ≤ avail then searchLevel sizes avail mid hi
    else searchLevel sizes avail lo (mid - 1)
  else lo
termination_by hi - lo
decreasing_by all_goals omega

def waterLevel (sizes : List Nat) (avail : Nat) : Nat := searchLevel sizes avail 0 (sizes.foldl max 0)

/-- The note behind a clipped chunk. -/
def clipNote (cut : Nat) : Bytes := notePrefix ++ digits cut ++ noteSuffix

/-- What the chunks so far have taken. -/
structure Filled where
  used : Nat
  emitted : List Bytes
  listed : List (Chunk × Status)

/-- The whole lines of a chunk that leave room for the note. -/
def clipEnd (level : Nat) (chunk : Chunk) : Nat :=
  let noteMax := notePrefix.length + (digits chunk.data.length).length + noteSuffix.length
  (Bytes.wholeLines chunk.data (level - noteMax)).length

/-- One chunk, at a level. -/
def placeChunk (level : Nat) (filled : Filled) (chunk : Chunk) : Filled :=
  let size := chunk.data.length
  if size ≤ level then
    { filled with used := filled.used + size, emitted := filled.emitted ++ [chunk.data] }
  else
    let stop := clipEnd level chunk
    if stop < minChunkBytes then { filled with listed := filled.listed ++ [(chunk, .omitted)] }
    else
      let note := clipNote (size - stop)
      { used := filled.used + stop + note.length
        emitted := filled.emitted ++ [chunk.data.take stop ++ note]
        listed := filled.listed ++ [(chunk, .clipped)] }

/-- What is emitted, listed and left of the budget. -/
structure Output where
  avail : Int
  emitted : List Bytes
  listed : List (Chunk × Status)

/-- The chunks of one rank. -/
def placeBucket (output : Output) (bucket : List Chunk) : Output :=
  let sizes : List Nat := bucket.map (·.data.length)
  if bucket = [] then output
  else if (sizes.sum : Int) ≤ output.avail then
    { output with avail := output.avail - sizes.sum, emitted := output.emitted ++ bucket.map (·.data) }
  else
    let level := waterLevel sizes output.avail.toNat
    let filled := bucket.foldl (placeChunk level) ⟨0, output.emitted, output.listed⟩
    ⟨output.avail - filled.used, filled.emitted, filled.listed⟩

/-! ## The diff -/

/-- `"."` up to three times. -/
def dots (budget : Nat) : Bytes := List.replicate (min budget 3) 0x2e

/-- `truncatePlain`: the whole lines that fit with the marker. -/
def truncatePlain (data : Bytes) (budget : Nat) (marker : Bytes) : Bytes :=
  if data.length ≤ budget then data
  else
    let suffix := Bytes.nl :: marker ++ [Bytes.nl]
    if suffix.length > budget then dots budget
    else
      let clip := data.take (budget - suffix.length)
      utf8 (decodeUtf8Ignore (clip.take (lineEnd clip))) ++ suffix

/-- The output with the first `n` lines of the manifest. -/
def render (body marker : Bytes) (listed : List (Chunk × Status)) (n : Nat) : Bytes :=
  let lines := (listed.map fun (chunk, status) => manifestLine chunk status).take n
  body ++ marker ++ [Bytes.nl] ++ manifestHeader listed.length ++ (lines.take manifestMaxLines).flatten ++
    if lines.length > manifestMaxLines then moreLine (lines.length - manifestMaxLines) else []

/-- The last line of the manifest is dropped until the output fits. -/
def fitLines (rendered : Nat → Bytes) (budget : Nat) : Nat → Bytes
  | 0 => rendered 0
  | n + 1 => if (rendered (n + 1)).length ≤ budget then rendered (n + 1) else fitLines rendered budget n

/-- A line feed at the end of bytes that have none there. -/
def closeLine (body : Bytes) : Bytes :=
  if body ≠ [] ∧ body.getLast? ≠ some Bytes.nl then body ++ [Bytes.nl] else body

/-- The whole lines of the preamble that leave room for the reserve. -/
def keptPreamble (preamble : Bytes) (reserved budget : Nat) : Bytes :=
  if preamble.length + reserved > budget then Bytes.wholeLines preamble (budget - reserved) else preamble

/-- The chunks, rank by rank. -/
def placeRanks (chunks : List Chunk) (avail : Int) : Output :=
  let ordered := ranks.flatMap (groupOf Chunk.rank chunks)
  (ranks.map (groupOf Chunk.rank ordered)).foldl placeBucket ⟨avail, [], []⟩

def prioritizeDiff (generated : Bytes → Bool) (marker : Bytes) (diff : Bytes) (budget : Nat) : Bytes :=
  if diff.length ≤ budget then diff
  else
    let chunks := chunksOf generated diff
    if chunks = [] then truncatePlain diff budget marker
    else if marker.length + 2 > budget then dots budget
    else
      let preamble := keptPreamble (splitChunks diff).1 (reserve chunks marker) budget
      let output := placeRanks chunks ((budget : Int) - preamble.length - reserve chunks marker)
      let body := closeLine (preamble ++ output.emitted.flatten)
      let out := fitLines (render body marker output.listed) budget output.listed.length
      if out.length > budget then truncatePlain out budget marker else out

end PrReviewer.Corpus
