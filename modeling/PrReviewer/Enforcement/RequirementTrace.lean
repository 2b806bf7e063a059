import PrReviewer.Enforcement.PredicateSignal
import PrReviewer.Js.Map
import PrReviewer.Tools.Evidence
import Mathlib.Data.List.Sort

/-!
# Requirement traces

`src/enforcement/requirement-trace.ts`: the locations a claim cites, the seams that the repository's configuration
declares for a distributed requirement, the matching of citations to seams, and the disposition of a `met` claim for a
distributed requirement.

The checkout is a parameter: the lines of each of its regular files. So is `toLowerCase`.
-/

namespace PrReviewer.Enforcement

open Js
open Tools (isTestPath ownerPatternRegex)

def MAX_TRACE_LOCATIONS : Nat := 5

def MAX_GROUPS_PER_RULE : Nat := MAX_TRACE_LOCATIONS - 1

def MAX_DECLARED_GROUPS_PER_RULE : Nat := 16

def MIN_DISTRIBUTED_GROUPS : Nat := 2

def PREDICATE_WINDOW_RADIUS : Nat := 3

/-! ## Locations -/

structure TraceLocation where
  file : String
  line : Nat
  deriving DecidableEq

/-- A positive integer. -/
def positiveInteger? : Value → Option Nat
  | .number x => if x.isInteger ∧ (0 : Number) < x then some x.toNat else none
  | .count n => if 0 < n then some n else none
  | _ => none

/-- An entry of a location list, when it is well formed. -/
def parseLocation (item : Value) : Option TraceLocation :=
  match item.get "file", positiveInteger? (item.get "line") with
  | .string file, some line => if trim file = "" then none else some ⟨file, line⟩
  | _, _ => none

def parseLocations : Value → List TraceLocation
  | .array items => (items.filterMap parseLocation).take MAX_TRACE_LOCATIONS
  | _ => []

/-- The regular files of the checkout, as lines. -/
structure FileTextCache where
  lines : String → Option (List (List Char))

namespace FileTextCache

def lineCount (cache : FileTextCache) (file : String) : Option Nat := (cache.lines file).map List.length

def predicateSignals (cache : FileTextCache) (file : String) : Option (List Bool) :=
  (cache.lines file).map filePredicateSignal

end FileTextCache

def locationValid (cache : FileTextCache) (loc : TraceLocation) : Bool :=
  match cache.lineCount loc.file with
  | none => false
  | some count => decide (loc.line ≤ count)

/-- `windowLines`. -/
def windowLines {α : Type} (lines : List α) (line1Based radius : Nat) : List α :=
  (lines.take (line1Based + radius)).drop (line1Based - 1 - radius)

/-- A line that looks like a predicate is near the location. -/
def predicateNear (cache : FileTextCache) (loc : TraceLocation) : Bool :=
  match cache.predicateSignals loc.file with
  | none => false
  | some signals =>
    decide (loc.line ≤ signals.length) && (windowLines signals loc.line PREDICATE_WINDOW_RADIUS).any id

def predicateSignalFound (locations : List TraceLocation) (cache : FileTextCache) : Bool :=
  locations.any (predicateNear cache)

/-! ## Declared seams -/

structure RequirementGroup where
  name : String
  owners : List String
  tests : List String
  deriving DecidableEq

structure RequirementOwnership where
  tokens : List String
  owners : List String
  groups : List RequirementGroup

section

variable (toLowerCase : String → String)

/-- Every token of the rule's `match` is a whole word of the text. -/
def ruleMatchesRequirement (rule : RequirementOwnership) (text : String) : Bool :=
  !rule.tokens.isEmpty && rule.tokens.all fun token =>
    decide (token ≠ "") &&
      (RegExp.concat [.wordBoundary, .literal (toLowerCase token), .wordBoundary]).test (toLowerCase text)

/-- The non-empty patterns, each once. -/
def patternSet (patterns : List String) : List String := (patterns.filter (· ≠ "")).eraseDups

/-- One declared seam, joined with what other rules declare under its name. -/
def addGroup (byName : Map String RequirementGroup) (group : RequirementGroup) : Map String RequirementGroup :=
  match byName.get? group.name with
  | none => byName.set group.name ⟨group.name, patternSet group.owners, patternSet group.tests⟩
  | some current =>
    byName.set group.name
      ⟨group.name, (current.owners ++ group.owners.filter (· ≠ "")).eraseDups,
        (current.tests ++ group.tests.filter (· ≠ "")).eraseDups⟩

structure DistributedGroupSet where
  groups : List RequirementGroup
  overflow : Bool
  excess : List String

/-- The seams under their names, from every rule that matches the text and declares at least two. -/
def groupsByName (text : String) (ownership : List RequirementOwnership) : Map String RequirementGroup :=
  (ownership.filter fun rule =>
    ruleMatchesRequirement toLowerCase rule text && decide (MIN_DISTRIBUTED_GROUPS ≤ rule.groups.length)).foldl
    (fun byName rule => rule.groups.foldl addGroup byName) .empty

/-- The seams with an owner, in the order of their names. -/
def sortedGroups (text : String) (ownership : List RequirementOwnership) : List RequirementGroup :=
  ((groupsByName toLowerCase text ownership).values.filter fun group => decide (group.owners ≠ [])).insertionSort
    fun a b => !strLt b.name a.name

def distributedGroupsForText (text : String) (ownership : List RequirementOwnership) : DistributedGroupSet :=
  let sorted := sortedGroups toLowerCase text ownership
  { groups := sorted.take MAX_DECLARED_GROUPS_PER_RULE
    overflow := decide (MAX_GROUPS_PER_RULE < sorted.length)
    excess := (sorted.drop MAX_GROUPS_PER_RULE).map (·.name) }

/-! ## Citations and seams -/

def citationMatchesPatterns (loc : TraceLocation) (patterns : List String) : Bool :=
  patterns.any fun pattern => (ownerPatternRegex pattern).test (toLowerCase loc.file)

end

/-- What a search for a citation has done: the citations it has tried, and which citation each group has. -/
structure MatchSearch where
  visited : List Nat
  citationToGroup : Map Nat Nat

/-- The loop of `assign` over the citations: `again` is the call for the group that has the citation. -/
def tryCitations (accepts : Nat → Nat → Bool) (again : Nat → MatchSearch → Bool × MatchSearch) (groupIndex : Nat) :
    List Nat → MatchSearch → Bool × MatchSearch
  | [], s => (false, s)
  | citationIndex :: rest, s =>
    if s.visited.contains citationIndex || !accepts groupIndex citationIndex then
      tryCitations accepts again groupIndex rest s
    else
      let s : MatchSearch := { s with visited := citationIndex :: s.visited }
      match s.citationToGroup.get? citationIndex with
      | none => (true, { s with citationToGroup := s.citationToGroup.set citationIndex groupIndex })
      | some prior =>
        match again prior s with
        | (true, s) => (true, { s with citationToGroup := s.citationToGroup.set citationIndex groupIndex })
        | (false, s) => tryCitations accepts again groupIndex rest s

/-- `assign`, for `count` citations. Every call inside a call has tried one citation more, so they are at most `count`
deep. -/
def assign (accepts : Nat → Nat → Bool) (count : Nat) : Nat → Nat → MatchSearch → Bool × MatchSearch
  | 0, _, s => (false, s)
  | fuel + 1, groupIndex, s => tryCitations accepts (assign accepts count fuel) groupIndex (List.range count) s

/-- The calls of `assign`, for each group with no citation tried. -/
def assignAll (accepts : Nat → Nat → Bool) (count : Nat) (groups : List Nat) : Map Nat Nat :=
  groups.foldl (fun owners index => (assign accepts count (count + 1) index ⟨[], owners⟩).2.citationToGroup) .empty

section

variable (toLowerCase : String → String)

/-- `matchCitationsToGroups`: the citation of each group that has one, under the group's name. -/
def matchCitationsToGroups (groups : List RequirementGroup) (citations : List TraceLocation)
    (patternsFor : RequirementGroup → List String) : Map String TraceLocation :=
  let unique := citations.eraseDups
  let accepts (groupIndex citationIndex : Nat) : Bool :=
    match groups[groupIndex]?, unique[citationIndex]? with
    | some group, some loc => citationMatchesPatterns toLowerCase loc (patternsFor group)
    | _, _ => false
  (assignAll accepts unique.length (List.range groups.length)).entries.foldl
    (fun found e =>
      match groups[e.2]?, unique[e.1]? with
      | some group, some loc => found.set group.name loc
      | _, _ => found) .empty

/-! ## Distributed requirements -/

inductive TraceDisposition where
  | met
  | unmet
  | notApplicable
  | unverifiable
  | pending
  deriving DecidableEq

variable (cache : FileTextCache)

/-- A `met` claim for a distributed requirement whose seams are within the cap: its disposition and the notes on it. -/
def distributedClaim (groups : List RequirementGroup) (enforcement test : List TraceLocation) :
    TraceDisposition × List String :=
  let enforcementMatches := matchCitationsToGroups toLowerCase groups (enforcement.filter (locationValid cache)) (·.owners)
  let uncovered := groups.filter fun group => !enforcementMatches.has group.name
  let validTests := test.filter fun loc => isTestPath loc.file.toList && locationValid cache loc
  let testMatches := matchCitationsToGroups toLowerCase groups validTests (·.tests)
  let untested := groups.filter fun group => !testMatches.has group.name
  let notes := uncovered.map ("distributed-enforcement-group-uncovered:" ++ ·.name) ++
    untested.map ("distributed-test-group-uncovered:" ++ ·.name) ++
    if validTests.isEmpty then ["distributed-test-location-uncovered"] else []
  if !uncovered.isEmpty || !untested.isEmpty || validTests.isEmpty then (.unverifiable, notes)
  else if predicateSignalFound enforcementMatches.values cache then (.met, notes)
  else (.unverifiable, notes ++ ["enforcement-location-copies-without-comparing"])

/-- The disposition and the notes of a `met` claim for a distributed requirement. -/
def distributedDisposition (set : DistributedGroupSet) (enforcement test : Value) : TraceDisposition × List String :=
  if set.overflow then (.unverifiable, ["distributed-topology-overflow"])
  else distributedClaim toLowerCase cache set.groups (parseLocations enforcement) (parseLocations test)

end

end PrReviewer.Enforcement
