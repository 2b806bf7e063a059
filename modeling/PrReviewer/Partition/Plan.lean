import PrReviewer.Corpus.Chunks
import PrReviewer.Js.Lines
import PrReviewer.Js.Map

/-!
# The partition planner

`planPartitions` of `src/partition/plan.ts` puts every changed file with a name in one part, in the order of rank
and name, or leaves it unassigned at the cap of parts.

- Limits are numbers of the caller; a missing one is the default, and one given as `undefined` compares as NaN.
- The sha-256 of the Node library is a parameter.
- References between parts and the echo of the limits are left out.
-/

open Js PrReviewer.Corpus

namespace PrReviewer.Partition

/-! ## Input -/

/-- The fields of a changed file that the planner reads. -/
structure ChangedFile where
  filename : String
  status : String

structure PartitionLimits where
  maxParts : Number
  maxFilesPerPart : Number
  maxBytesPerPart : Number
  maxFileBytes : Number

/-- `DEFAULT_PARTITION_LIMITS`. -/
def defaultPartitionLimits : PartitionLimits where
  maxParts := 8
  maxFilesPerPart := 40
  maxBytesPerPart := 200000
  maxFileBytes := 400000

/-- The limits that a caller overrides. -/
structure LimitOverrides where
  maxParts : Option Number := none
  maxFilesPerPart : Option Number := none
  maxBytesPerPart : Option Number := none
  maxFileBytes : Option Number := none

def resolveLimits (overrides : LimitOverrides) : PartitionLimits where
  maxParts := overrides.maxParts.getD defaultPartitionLimits.maxParts
  maxFilesPerPart := overrides.maxFilesPerPart.getD defaultPartitionLimits.maxFilesPerPart
  maxBytesPerPart := overrides.maxBytesPerPart.getD defaultPartitionLimits.maxBytesPerPart
  maxFileBytes := overrides.maxFileBytes.getD defaultPartitionLimits.maxFileBytes

structure PlanInput where
  changedFiles : List ChangedFile
  diff : Bytes
  generatedPaths : Bytes → Bool
  headSha : String
  limits : LimitOverrides

/-! ## Manifest -/

/-- A changed file as it is assigned. -/
structure PartitionFileRef where
  filename : String
  rank : Nat
  bytes : Nat
  status : String
  oversized : Bool
  noDiff : Bool
  deriving DecidableEq

structure PartitionPart where
  index : Nat
  files : List PartitionFileRef
  bytes : Nat
  truncated : Bool
  identity : String
  deriving DecidableEq

/-- The names of the files of a part. -/
def PartitionPart.filenames (part : PartitionPart) : List String := part.files.map PartitionFileRef.filename

structure PartitionCoverage where
  complete : Bool
  reasons : List String
  changedFilesTotal : Nat
  assignedFiles : Nat
  unassignedFiles : List String
  oversizedFiles : List String
  noDiffFiles : List String

structure PartitionManifest where
  headSha : String
  diffFingerprint : String
  parts : List PartitionPart
  coverage : PartitionCoverage

/-! ## Planning -/

/-- The text whose digest is the identity of a part. -/
def identityText (filenames : List String) : String := "\n".intercalate (sortStrings filenames)

variable (sha256 : Bytes → String)

def diffFingerprint (diff : Bytes) : String := sha256 diff

def computePartitionIdentity (filenames : List String) : String := sha256 (utf8 (identityText filenames))

/-- The chunk of each path; the first one wins. -/
def chunkMap (diff : Bytes) : Map String Bytes :=
  (splitChunks diff).2.foldl
    (fun map chunk =>
      let path := decodeUtf8Ignore chunk.1
      if map.has path then map else map.set path chunk.2)
    .empty

/-- The changed file of this name, with the size of its chunk. -/
def eligibleFile (input : PlanInput) (limits : PartitionLimits) (chunks : Map String Bytes)
    (filename status : String) : PartitionFileRef :=
  let bytes := ((chunks.get? filename).map List.length).getD 0
  { filename, status, bytes
    rank := rankPath (utf8 filename) bytes input.generatedPaths
    noDiff := bytes = 0
    oversized := decide (limits.maxFileBytes < Number.ofNat bytes) }

/-- `a.rank - b.rank || codeUnitCompare(a.filename, b.filename)` is not positive. -/
def plannedBefore (a b : PartitionFileRef) : Bool :=
  a.rank < b.rank || (a.rank = b.rank && !strLt b.filename a.filename)

/-- One file of the loop; a blank name or one that was seen is skipped. -/
def collectFile (input : PlanInput) (limits : PartitionLimits) (chunks : Map String Bytes)
    (eligible : List PartitionFileRef) (file : ChangedFile) : List PartitionFileRef :=
  let filename := trim file.filename
  if filename = "" ∨ filename ∈ eligible.map PartitionFileRef.filename then eligible
  else eligible ++ [eligibleFile input limits chunks filename file.status]

def collectEligible (input : PlanInput) (limits : PartitionLimits) (chunks : Map String Bytes) :
    List PartitionFileRef :=
  (input.changedFiles.foldl (collectFile input limits chunks) []).insertionSort fun a b => plannedBefore a b

def makePart (index : Nat) (files : List PartitionFileRef) (bytes : Nat) (truncated : Bool) : PartitionPart where
  index
  files
  bytes
  truncated
  identity := computePartitionIdentity sha256 (files.map PartitionFileRef.filename)

/-- The assignment so far. -/
structure Assignment where
  parts : List PartitionPart
  unassigned : List String
  oversizedFiles : List String
  noDiffFiles : List String
  currentFiles : List PartitionFileRef
  currentBytes : Nat

def Assignment.empty : Assignment where
  parts := []
  unassigned := []
  oversizedFiles := []
  noDiffFiles := []
  currentFiles := []
  currentBytes := 0

/-- Close the current part, if it has a file. -/
def flush (a : Assignment) : Assignment :=
  if a.currentFiles = [] then a
  else
    { a with
      parts := a.parts ++ [makePart sha256 a.parts.length a.currentFiles a.currentBytes false]
      currentFiles := []
      currentBytes := 0 }

/-- The marks of a file that keep the coverage from being complete. -/
def markFile (a : Assignment) (file : PartitionFileRef) : Assignment :=
  { a with
    noDiffFiles := if file.noDiff then a.noDiffFiles ++ [file.filename] else a.noDiffFiles
    oversizedFiles := if file.oversized then a.oversizedFiles ++ [file.filename] else a.oversizedFiles }

def atPartCap (limits : PartitionLimits) (a : Assignment) : Bool :=
  decide (limits.maxParts ≤ Number.ofNat a.parts.length)

/-- Does the next file need a new part? -/
def needsNew (limits : PartitionLimits) (a : Assignment) (file : PartitionFileRef) : Bool :=
  decide (limits.maxFilesPerPart ≤ Number.ofNat a.currentFiles.length) ||
    (decide (limits.maxBytesPerPart < Number.ofNat (a.currentBytes + file.bytes)) &&
      decide (a.currentFiles ≠ []))

def leaveOut (a : Assignment) (file : PartitionFileRef) : Assignment :=
  { a with unassigned := a.unassigned ++ [file.filename] }

/-- One file of the loop. An oversized file gets a part of its own. -/
def assignFile (limits : PartitionLimits) (a : Assignment) (file : PartitionFileRef) : Assignment :=
  let marked := markFile a file
  if file.oversized then
    let closed := flush sha256 marked
    if atPartCap limits closed then leaveOut closed file
    else
      { closed with
        parts := closed.parts ++ [makePart sha256 closed.parts.length [file] file.bytes true] }
  else
    let current := if needsNew limits marked file then flush sha256 marked else marked
    if atPartCap limits current then leaveOut current file
    else
      { current with
        currentFiles := current.currentFiles ++ [file], currentBytes := current.currentBytes + file.bytes }

def assignParts (eligible : List PartitionFileRef) (limits : PartitionLimits) : Assignment :=
  flush sha256 (eligible.foldl (assignFile sha256 limits) .empty)

/-- Why the coverage is not complete. -/
def incompleteReasons (a : Assignment) : List String :=
  sortStrings ((if a.unassigned = [] then [] else ["part-cap"])
    ++ (if a.oversizedFiles = [] then [] else ["oversized-file"])
    ++ (if a.noDiffFiles = [] then [] else ["no-diff-file"]))

def planPartitions (input : PlanInput) : PartitionManifest :=
  let limits := resolveLimits input.limits
  let eligible := collectEligible input limits (chunkMap input.diff)
  let assigned := assignParts sha256 eligible limits
  { headSha := input.headSha
    diffFingerprint := diffFingerprint sha256 input.diff
    parts := assigned.parts
    coverage := {
      complete := incompleteReasons assigned = []
      reasons := incompleteReasons assigned
      changedFilesTotal := eligible.length
      assignedFiles := (assigned.parts.map fun part => part.files.length).sum
      unassignedFiles := sortStrings assigned.unassigned
      oversizedFiles := sortStrings assigned.oversizedFiles
      noDiffFiles := sortStrings assigned.noDiffFiles } }

/-- The bytes of a part: the chunks of its files, in the order of the part. -/
def partitionDiffBytes (part : PartitionPart) (diff : Bytes) : Bytes :=
  (part.files.filterMap fun ref => (chunkMap diff).get? ref.filename).flatten

end PrReviewer.Partition
