import PrReviewer.Enforcement.SeamOrder

/-!
# Trace claims

`src/enforcement/requirement-trace.ts`: the claims of a coverage payload by requirement (`indexClaims`), the row of each
requirement (`validateRequirementTrace`), the requirements without a claim (`missingTraceRequirementIds`), and a payload
with repaired claims after its own (`mergeTraceClaims`).

What the row builder reads of a requirement's text, of the pull request body and of the checkout beyond cited lines is a
parameter (`TraceChecks`).
-/

namespace PrReviewer.Enforcement

open Js
open Tools (isTestPath)

def MAX_REASON_CHARS : Nat := 300

def MAX_ARTIFACT_ERRORS : Nat := 8

def MAX_TRACE_REPAIR_SUMMARY_ID_CHARS : Nat := 80

/-! ## Claims by requirement -/

/-- The requirement that an entry of a coverage payload names: a plain object's `requirement_id`, when it is a string. -/
def claimId? : Value → Option String
  | .object fields => (Value.object fields).get "requirement_id" |>.string?
  | _ => none

/-- The entries of a payload. -/
def payloadEntries : Value → List Value
  | .array items => items
  | _ => []

structure ClaimIndex where
  claimsById : Map String Value
  errors : List String
  errorsTruncated : Bool

/-- `recordArtifactError`. -/
def ClaimIndex.recordError (index : ClaimIndex) (message : String) : ClaimIndex :=
  if MAX_ARTIFACT_ERRORS - 1 ≤ index.errors.length then { index with errorsTruncated := true }
  else { index with errors := index.errors ++ [message] }

def ClaimIndex.addClaim (index : ClaimIndex) (entry : Value × Nat) : ClaimIndex :=
  match entry.1 with
  | .object fields =>
    match (Value.object fields).get "requirement_id" with
    | .string rid =>
      if index.claimsById.has rid then index
      else { index with claimsById := index.claimsById.set rid (.object fields) }
    | _ =>
      index.recordError
        ("requirement_trace[" ++ toString entry.2 ++ "]: missing or non-string requirement_id; skipped")
  | _ => index.recordError ("requirement_trace[" ++ toString entry.2 ++ "]: entry is not an object; skipped")

/-- The claim of each requirement, the first one under its id. -/
def indexClaims (coveragePayload : Value) : ClaimIndex :=
  (payloadEntries coveragePayload).zipIdx.foldl ClaimIndex.addClaim ⟨.empty, [], false⟩

/-- The errors of the artifact. -/
def ClaimIndex.allErrors (index : ClaimIndex) : List String :=
  if index.errorsTruncated then
    index.errors ++ ["requirement_trace: additional malformed entries omitted (diagnostics capped at " ++
      toString MAX_ARTIFACT_ERRORS ++ ")"]
  else index.errors

/-! ## Rows -/

inductive NonCodeProofDomain where
  | externalState
  | documentation
  deriving DecidableEq

inductive RequirementProofKind where
  | runtimeBehavior
  | structuralState
  | testRequired
  | distributed
  | nonCode (domain : NonCodeProofDomain)
  | notApplicable
  deriving DecidableEq

structure TracedLedgerEntry where
  id : String
  text : String

structure RequirementTraceRow where
  requirementId : String
  disposition : TraceDisposition
  proof : RequirementProofKind
  enforcement : List TraceLocation
  test : List TraceLocation
  reason : String
  notes : List String
  deriving DecidableEq

/-- What the validator's context holds: the declared ownership, the state of CI, the ids that an attempted repair has
left without a claim, and where the requirements come from. -/
structure TraceContext where
  ownership : List RequirementOwnership
  ciState : Option String
  repairMissing : Option (List String)
  sourcesById : String → Option String

/-- What else is read of a requirement's text and of the checkout. -/
structure TraceChecks where
  Structural : Type
  toLowerCase : String → String
  cache : FileTextCache
  structuralStateClaim : String → Option Structural
  /-- The citation is of the file of the structural claim. -/
  citesStructural : Structural → TraceLocation → Bool
  structuralCitationLineInRange : TraceLocation → Structural → Bool
  structuralProofHolds : Structural → Bool
  explicitlyRequiresTest : String → Bool
  nonCodeProofDomain : String → Option NonCodeProofDomain
  nonCodeDisposition : NonCodeProofDomain → String → Option String → String → TraceDisposition × List String
  /-- `enforcementPredicateSatisfied`, for the terms of a text and a symbol and the declared owners of the text. -/
  enforcementPredicateSatisfied : List TraceLocation → String → Option String → Bool

/-- `capReason`. -/
def capReason : Value → String
  | .string s =>
    if MAX_REASON_CHARS < strLength (trim s) then sliceTo (MAX_REASON_CHARS - 1) (trim s) ++ "…" else trim s
  | _ => ""

/-- `traceRepairIdKey`. -/
def traceRepairIdKey (id : String) : String :=
  sliceTo MAX_TRACE_REPAIR_SUMMARY_ID_CHARS
    (String.ofList (id.toList.filter fun c => !(c.toNat ≤ 0x1F || c.toNat == 0x7F || c == backtick)))

/-- A disposition that a claim may have. -/
def parseDisposition (s : String) : Option TraceDisposition :=
  if s = "met" then some .met
  else if s = "unmet" then some .unmet
  else if s = "not_applicable" then some .notApplicable
  else if s = "unverifiable" then some .unverifiable
  else none

namespace TraceChecks

variable (checks : TraceChecks) (context : TraceContext)

def anyTestLocationValid (locations : List TraceLocation) : Bool :=
  locations.any fun loc => isTestPath loc.file.toList && locationValid checks.cache loc

/-- A `met` claim for a requirement about the state of a file. -/
def structuralClaim (structural : checks.Structural) (requiresTest : Bool) (enforcement test : List TraceLocation) :
    TraceDisposition × List String :=
  let stateNotes := match enforcement.find? (checks.citesStructural structural) with
    | none => ["downgraded-no-valid-enforcement-location"]
    | some cited =>
      if !checks.structuralCitationLineInRange cited structural then ["structural-citation-line-out-of-range"]
      else if !checks.structuralProofHolds structural then ["structural-proof-unconfirmed"]
      else []
  let notes := stateNotes ++
    if requiresTest && !checks.anyTestLocationValid test then ["downgraded-no-valid-test-location"] else []
  (if notes.isEmpty then .met else .unverifiable, notes)

/-- A `met` claim for a requirement about behaviour. -/
def behaviourClaim (text : String) (symbol : Option String) (enforcement test : List TraceLocation) :
    TraceDisposition × List String :=
  let notes :=
    (if !enforcement.any (locationValid checks.cache) then ["downgraded-no-valid-enforcement-location"] else []) ++
      if !checks.anyTestLocationValid test then ["downgraded-no-valid-test-location"] else []
  if !notes.isEmpty then (.unverifiable, notes)
  else if checks.enforcementPredicateSatisfied (enforcement.filter (locationValid checks.cache)) text symbol then (.met, [])
  else (.unverifiable, ["enforcement-location-copies-without-comparing"])

/-- A `met` claim, before the cap on seams. -/
def metClaim (text : String) (set : DistributedGroupSet) (symbol : Option String)
    (enforcement test : List TraceLocation) : TraceDisposition × List String :=
  if MIN_DISTRIBUTED_GROUPS ≤ set.groups.length then
    if set.overflow then (.met, []) else distributedClaim checks.toLowerCase checks.cache set.groups enforcement test
  else
    match checks.structuralStateClaim text with
    | some structural => checks.structuralClaim structural (checks.explicitlyRequiresTest text) enforcement test
    | none => checks.behaviourClaim text symbol enforcement test

/-- A claim for a requirement with a code proof: its disposition and the notes on it. -/
def codeClaim (text : String) (set : DistributedGroupSet) (claim : Value) : TraceDisposition × List String :=
  let rawDisposition := (claim.get "disposition").string?.map checks.toLowerCase
  match rawDisposition.bind parseDisposition with
  | none =>
    if capReason (claim.get "reason") = "" then (.unverifiable, ["disposition-invalid", "missing-reason"])
    else (.unverifiable, ["disposition-invalid"])
  | some .met =>
    checks.metClaim text set (claim.get "symbol").string? (parseLocations (claim.get "enforcement"))
      (parseLocations (claim.get "test"))
  | some disposition =>
    if capReason (claim.get "reason") = "" then (.unverifiable, ["missing-reason"]) else (disposition, [])

/-- The notes on a row in a domain without a code proof. -/
def nonCodeNotes (domain : NonCodeProofDomain) (id : String) : List String :=
  ("provenance:" ++ (context.sourcesById id).getD "unknown") ::
    match domain with
    | .documentation => []
    | .externalState =>
      let ci := sliceTo 32 (String.ofList (((context.ciState.getD "").toList).filter isTokenChar))
      [if ci = "" then "external-state-ci-unavailable" else "external-state-ci:" ++ ci]

/-- The row of a requirement without a claim. -/
def untracedNotes (id : String) : List String :=
  "not-traced-by-reviewer" ::
    match context.repairMissing with
    | some missing => if missing.contains (traceRepairIdKey id) then ["trace-repair-ran-no-claims"] else []
    | none => []

/-- The row of a requirement in scope, for its claim. -/
def inScopeRow (entry : TracedLedgerEntry) (claim : Option Value) : RequirementTraceRow :=
  let set := distributedGroupsForText checks.toLowerCase entry.text context.ownership
  let isDistributed := decide (MIN_DISTRIBUTED_GROUPS ≤ set.groups.length)
  let structural := checks.structuralStateClaim entry.text
  let nonCode := if structural.isNone && !isDistributed then checks.nonCodeProofDomain entry.text else none
  let proof : RequirementProofKind :=
    if isDistributed then .distributed
    else if structural.isSome then .structuralState
    else match nonCode with
      | some domain => .nonCode domain
      | none => if checks.explicitlyRequiresTest entry.text then .testRequired else .runtimeBehavior
  let body := claim.getD .undefined
  let settled : TraceDisposition × List String :=
    match nonCode, claim with
    | some domain, _ =>
      let (disposition, notes) := checks.nonCodeDisposition domain entry.text
        ((body.get "disposition").string?.map checks.toLowerCase) (capReason (body.get "reason"))
      (disposition, notes ++ (if claim.isNone then ["non-code-not-traced"] else []) ++ nonCodeNotes context domain entry.id)
    | none, none => (.unverifiable, untracedNotes context entry.id)
    | none, some claim => checks.codeClaim entry.text set claim
  let overflowed := set.overflow && isDistributed
  { requirementId := entry.id
    disposition := if overflowed then .unverifiable else settled.1
    proof
    enforcement := parseLocations (body.get "enforcement")
    test := parseLocations (body.get "test")
    reason := capReason (body.get "reason")
    notes := settled.2 ++ if overflowed then ["distributed-topology-overflow"] else [] }

/-- The row of a requirement out of scope, for its claim and the reason why it is. -/
def outOfScopeRow (entry : TracedLedgerEntry) (reason : String) (claim : Option Value) : RequirementTraceRow :=
  let body := claim.getD .undefined
  let claimedUnmet := decide ((body.get "disposition").string?.map checks.toLowerCase = some "unmet") &&
    decide (capReason (body.get "reason") ≠ "")
  if claimedUnmet then
    { requirementId := entry.id, disposition := .unmet, proof := .notApplicable
      enforcement := parseLocations (body.get "enforcement"), test := parseLocations (body.get "test")
      reason := capReason (body.get "reason"), notes := ["out-of-scope-reported-unmet"] }
  else
    { requirementId := entry.id, disposition := .notApplicable, proof := .notApplicable, enforcement := [], test := []
      reason, notes := ["out-of-scope"] }

/-- A `met` claim for a distributed requirement is settled by its seams alone. -/
theorem inScopeRow_distributed {entry : TracedLedgerEntry} {claim : Value} {word : String}
    (hdistributed : MIN_DISTRIBUTED_GROUPS ≤
      (distributedGroupsForText checks.toLowerCase entry.text context.ownership).groups.length)
    (hword : claim.get "disposition" = .string word) (hmet : checks.toLowerCase word = "met") :
    ((checks.inScopeRow context entry (some claim)).disposition, (checks.inScopeRow context entry (some claim)).notes) =
      distributedDisposition checks.toLowerCase checks.cache
        (distributedGroupsForText checks.toLowerCase entry.text context.ownership) (claim.get "enforcement")
        (claim.get "test") := by
  have hclaim : checks.codeClaim entry.text
      (distributedGroupsForText checks.toLowerCase entry.text context.ownership) claim =
      checks.metClaim entry.text (distributedGroupsForText checks.toLowerCase entry.text context.ownership)
        (claim.get "symbol").string? (parseLocations (claim.get "enforcement")) (parseLocations (claim.get "test")) := by
    simp only [codeClaim, hword, Value.string?, Option.map_some, hmet]
    rfl
  simp only [inScopeRow, hdistributed, decide_true, Bool.not_true, Bool.and_false, Bool.false_eq_true, if_false,
    hclaim, metClaim, if_true, Bool.and_true, distributedDisposition]
  split
  · rfl
  · rw [List.append_nil]

end TraceChecks

structure RequirementTraceArtifact where
  version : Nat
  rows : List RequirementTraceRow
  incomplete : Bool
  errors : List String

/-- The rows of the requirements in scope, then of those out of scope. -/
def traceRows (checks : TraceChecks) (context : TraceContext) (inScope : List TracedLedgerEntry)
    (outOfScope : List (TracedLedgerEntry × String)) (claimsById : Map String Value) : List RequirementTraceRow :=
  inScope.map (fun entry => checks.inScopeRow context entry (claimsById.get? entry.id)) ++
    outOfScope.map fun e => checks.outOfScopeRow e.1 e.2 (claimsById.get? e.1.id)

/-- `validateRequirementTrace`, for the scope of the ledger. -/
def validateRequirementTrace (checks : TraceChecks) (context : TraceContext) (inScope : List TracedLedgerEntry)
    (outOfScope : List (TracedLedgerEntry × String)) (coveragePayload : Value) : RequirementTraceArtifact :=
  if inScope.isEmpty && outOfScope.isEmpty then ⟨1, [], false, []⟩
  else
    let index := indexClaims coveragePayload
    let rows := traceRows checks context inScope outOfScope index.claimsById
    { version := 1
      rows
      incomplete := rows.any fun row => row.disposition = .unverifiable || row.disposition = .unmet
      errors := index.allErrors }

/-! ## Missing and repaired claims -/

/-- The ids that the entries name. -/
def namedIds (entries : List Value) : List String := entries.filterMap claimId?

def missingTraceRequirementIds (coveragePayload : Value) (inScopeIds : List String) : List String :=
  inScopeIds.filter fun id => !(namedIds (payloadEntries coveragePayload)).contains id

/-- The loop over the repaired claims, for the ids that are `present` so far. -/
def appendRepaired : List String → List Value → List Value
  | _, [] => []
  | present, claim :: rest =>
    match claimId? claim with
    | none => appendRepaired present rest
    | some rid => if present.contains rid then appendRepaired present rest else claim :: appendRepaired (rid :: present) rest

/-- `mergeTraceClaims`: the repaired claims with an id that has none, after the payload's own entries. -/
def mergeTraceClaims (coveragePayload repaired : Value) : Value :=
  .array (payloadEntries coveragePayload ++
    appendRepaired (namedIds (payloadEntries coveragePayload)) (payloadEntries repaired))

end PrReviewer.Enforcement
