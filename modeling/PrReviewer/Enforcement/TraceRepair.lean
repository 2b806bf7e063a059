import PrReviewer.Enforcement.TraceClaims
import PrReviewer.Js.Slice

/-!
# Trace repair

`src/requirements/trace-repair.ts`: the claims that a repair answer is read as (`normalizeTraceRepairPayload`,
`parseTraceRepairResponse`).

- **Answers** (`sanitized_of_mem`): what is read of an answer has requested ids, each once, bounded locations and no
  control characters.
-/

namespace PrReviewer.Enforcement

open Js List

def MAX_TRACE_REPAIR_CLAIMS : Nat := 48

def MAX_TRACE_REPAIR_LOCATIONS : Nat := 5

def MAX_TRACE_REPAIR_REASON_CHARS : Nat := 300

def MAX_TRACE_REPAIR_SYMBOL_CHARS : Nat := 80

def MAX_TRACE_REPAIR_ERRORS : Nat := 8

/-! ## Answers -/

/-- A location as it is kept, when it is well formed. -/
def sanitizeLocation (item : Value) : Option Value :=
  match item.get "file", positiveInteger? (item.get "line") with
  | .string file, some _ => if trim file = "" then none else some (.object [("file", .string file), ("line", item.get "line")])
  | _, _ => none

def sanitizeLocations : Value → List Value
  | .array items => (items.filterMap sanitizeLocation).take MAX_TRACE_REPAIR_LOCATIONS
  | _ => []

/-- `clean`: control characters as spaces. -/
def cleanControl (s : String) : String :=
  String.ofList (s.toList.map fun c => if c.toNat ≤ 0x1F || c.toNat == 0x7F then ' ' else c)

/-- The first `n` units of a cleaned text, and nothing for what is not a text. -/
def cleanField (n : Nat) : Value → String
  | .string s => sliceTo n (cleanControl s)
  | _ => ""

def sanitizeClaim (requirementId : String) (record : Value) : Value :=
  let symbol := cleanField MAX_TRACE_REPAIR_SYMBOL_CHARS (record.get "symbol")
  .object ([("requirement_id", .string requirementId), ("disposition", .string (cleanField 32 (record.get "disposition"))),
      ("enforcement", .array (sanitizeLocations (record.get "enforcement"))),
      ("test", .array (sanitizeLocations (record.get "test"))),
      ("reason", .string (cleanField MAX_TRACE_REPAIR_REASON_CHARS (record.get "reason")))] ++
    if symbol = "" then [] else [("symbol", .string symbol)])

structure RepairClaims where
  claims : List Value
  errors : List String

/-- One more diagnostic, while there is room. -/
def RepairClaims.note (out : RepairClaims) (message : String) : RepairClaims :=
  if out.errors.length < MAX_TRACE_REPAIR_ERRORS - 1 then { out with errors := out.errors ++ [message] } else out

/-- The loop over the entries, for the claims so far and their ids. -/
def repairEntries (allowedIds : String → Bool) : List (Value × Nat) → List String → RepairClaims → RepairClaims
  | [], _, out => out
  | (entry, index) :: rest, seen, out =>
    let label := "requirement_coverage[" ++ toString index ++ "]: "
    match entry with
    | .object fields =>
      match (Value.object fields).get "requirement_id" with
      | .string rid =>
        if rid = "" then repairEntries allowedIds rest seen (out.note (label ++ "missing requirement_id; skipped"))
        else if !allowedIds rid then repairEntries allowedIds rest seen (out.note (label ++ "id not requested; skipped"))
        else if seen.contains rid then repairEntries allowedIds rest seen out
        else if MAX_TRACE_REPAIR_CLAIMS ≤ out.claims.length then
          out.note ("requirement_coverage: more than " ++ toString MAX_TRACE_REPAIR_CLAIMS ++ " claims; extra omitted")
        else
          repairEntries allowedIds rest (rid :: seen)
            { out with claims := out.claims ++ [sanitizeClaim rid (.object fields)] }
      | _ => repairEntries allowedIds rest seen (out.note (label ++ "missing requirement_id; skipped"))
    | _ => repairEntries allowedIds rest seen (out.note (label ++ "not an object; skipped"))

/-- `record.requirement_coverage ?? record.claims`. -/
def coverageOrClaims (record : Value) : Value :=
  match record.get "requirement_coverage" with
  | .undefined | .null => record.get "claims"
  | entries => entries

/-- The claims among the entries, which are to be an array. -/
def repairArray (allowedIds : String → Bool) : Value → RepairClaims
  | .array items => repairEntries allowedIds items.zipIdx [] ⟨[], []⟩
  | _ => ⟨[], ["requirement_coverage is not an array"]⟩

def normalizeTraceRepairPayload (allowedIds : String → Bool) (payload : Value) : RepairClaims :=
  match payload with
  | .object fields => repairArray allowedIds (coverageOrClaims (.object fields))
  | .array items => repairArray allowedIds (.array items)
  | _ => ⟨[], ["payload is not a JSON object"]⟩

/-- `parseTraceRepairResponse`, where `extractSpecialistJson` reads the JSON out of the answer. -/
def parseTraceRepairResponse (extractSpecialistJson : Option String → Value) (allowedIds : String → Bool)
    (text : Option String) : RepairClaims :=
  match extractSpecialistJson text with
  | .null => ⟨[], ["malformed JSON: no decodable requirement_coverage object found"]⟩
  | payload => normalizeTraceRepairPayload allowedIds payload

/-- What holds of a claim that is read of an answer: the requested id, bounded lists of locations with a positive line,
and texts without control characters. -/
structure Sanitized (allowedIds : String → Bool) (claim : Value) : Prop where
  requested : ∃ id, claim.get "requirement_id" = .string id ∧ allowedIds id = true
  locations : ∀ key ∈ ["enforcement", "test"], ∃ locations, claim.get key = .array locations ∧
    locations.length ≤ MAX_TRACE_REPAIR_LOCATIONS ∧ ∀ loc ∈ locations, (positiveInteger? (loc.get "line")).isSome = true
  texts : ∀ key ∈ ["disposition", "reason", "symbol"], ∀ s, claim.get key = .string s → hasControlChar s = false

theorem hasControlChar_sliceTo {n : Nat} {s : String} (h : hasControlChar s = false) :
    hasControlChar (sliceTo n s) = false := by
  rw [hasControlChar, any_eq_false] at h ⊢
  exact fun c hc => h c (mem_of_mem_sliceTo hc)

theorem hasControlChar_cleanControl (s : String) : hasControlChar (cleanControl s) = false := by
  rw [hasControlChar, cleanControl, String.toList_ofList, any_map, any_eq_false]
  intro c _
  by_cases hc : (c.toNat ≤ 0x1F || c.toNat == 0x7F) = true
  · simp only [Function.comp_apply, if_pos hc]
    decide
  · simpa only [Function.comp_apply, if_neg hc] using hc

theorem hasControlChar_cleanField (n : Nat) (v : Value) : hasControlChar (cleanField n v) = false := by
  unfold cleanField
  split
  · exact hasControlChar_sliceTo (hasControlChar_cleanControl _)
  · rfl

theorem line_of_sanitizeLocation {item loc : Value} (h : sanitizeLocation item = some loc) :
    (positiveInteger? (loc.get "line")).isSome = true := by
  rw [sanitizeLocation] at h
  split at h
  · next hline =>
    split at h
    · cases h
    · rw [Option.some.injEq] at h
      subst h
      change (positiveInteger? (item.get "line")).isSome = true
      rw [hline]
      rfl
  · cases h

theorem sanitizeLocations_bounded (v : Value) : (sanitizeLocations v).length ≤ MAX_TRACE_REPAIR_LOCATIONS ∧
    ∀ loc ∈ sanitizeLocations v, (positiveInteger? (loc.get "line")).isSome = true := by
  cases v with
  | array items =>
    refine ⟨length_take_le .., fun loc hloc => ?_⟩
    obtain ⟨item, -, hitem⟩ := mem_filterMap.mp (mem_of_mem_take hloc)
    exact line_of_sanitizeLocation hitem
  | _ => exact ⟨Nat.zero_le _, fun loc hloc => absurd hloc not_mem_nil⟩

theorem sanitizeClaim_sanitized {allowedIds : String → Bool} {rid : String} (h : allowedIds rid = true) (record : Value) :
    Sanitized allowedIds (sanitizeClaim rid record) := by
  refine ⟨⟨rid, rfl, h⟩, fun key hkey => ?_, fun key hkey s hs => ?_⟩
  · simp only [mem_cons, not_mem_nil, or_false] at hkey
    rcases hkey with rfl | rfl
    · exact ⟨_, rfl, sanitizeLocations_bounded _⟩
    · exact ⟨_, rfl, sanitizeLocations_bounded _⟩
  · simp only [mem_cons, not_mem_nil, or_false] at hkey
    rcases hkey with rfl | rfl | rfl
    · cases hs
      exact hasControlChar_cleanField _ _
    · cases hs
      exact hasControlChar_cleanField _ _
    · rw [sanitizeClaim] at hs
      split at hs
      · cases hs
      · cases hs
        exact hasControlChar_cleanField _ _

/-! ## The loop over the entries -/

/-- The claims have the ids seen, each once. -/
structure Collected (allowedIds : String → Bool) (seen : List String) (claims : List Value) : Prop where
  sanitized : ∀ claim ∈ claims, Sanitized allowedIds claim
  ids : namedIds claims = seen.reverse
  nodup : seen.Nodup

theorem note_claims (out : RepairClaims) (message : String) : (out.note message).claims = out.claims := by
  rw [RepairClaims.note]
  split <;> rfl

theorem collected_repairEntries {allowedIds : String → Bool} (entries : List (Value × Nat)) {seen : List String}
    {out : RepairClaims} (h : Collected allowedIds seen out.claims) :
    ∃ seen', Collected allowedIds seen' (repairEntries allowedIds entries seen out).claims := by
  induction entries generalizing seen out with
  | nil => exact ⟨seen, h⟩
  | cons e rest ih =>
    obtain ⟨entry, index⟩ := e
    have hnote : ∀ message, ∃ seen', Collected allowedIds seen'
        (repairEntries allowedIds rest seen (out.note message)).claims := fun message =>
      ih ((note_claims out message).symm ▸ h)
    cases entry with
    | object fields =>
      rw [repairEntries]
      split
      · next rid hrid =>
        split_ifs with hempty hallowed hseen hroom
        · exact hnote _
        · exact hnote _
        · exact ih h
        · exact ⟨seen, (note_claims out _).symm ▸ h⟩
        · have hrequested : allowedIds rid = true := by simpa using hallowed
          refine ih ⟨fun claim hclaim => ?_, ?_, ?_⟩
          · rcases mem_append.mp hclaim with hold | hnew
            · exact h.sanitized claim hold
            · rw [mem_singleton.mp hnew]
              exact sanitizeClaim_sanitized hrequested _
          · rw [namedIds, filterMap_append, ← namedIds, h.ids, reverse_cons]
            rfl
          · exact nodup_cons.mpr ⟨by simpa using hseen, h.nodup⟩
      · exact hnote _
    | _ => exact hnote _

/-- The claims read of a payload are sanitized ones, with distinct ids. -/
theorem normalize_collected (allowedIds : String → Bool) (payload : Value) :
    ∃ seen, Collected allowedIds seen (normalizeTraceRepairPayload allowedIds payload).claims := by
  have hempty : Collected allowedIds [] [] := ⟨fun _ h => absurd h not_mem_nil, rfl, nodup_nil⟩
  have harray : ∀ v, ∃ seen, Collected allowedIds seen (repairArray allowedIds v).claims := by
    intro v
    cases v with
    | array items => exact collected_repairEntries items.zipIdx hempty
    | _ => exact ⟨[], hempty⟩
  cases payload with
  | object fields => exact harray _
  | array items => exact harray _
  | _ => exact ⟨[], hempty⟩

theorem parse_collected (extractSpecialistJson : Option String → Value) (allowedIds : String → Bool)
    (text : Option String) :
    ∃ seen, Collected allowedIds seen (parseTraceRepairResponse extractSpecialistJson allowedIds text).claims := by
  rw [parseTraceRepairResponse]
  split
  · exact ⟨[], fun _ h => absurd h not_mem_nil, rfl, nodup_nil⟩
  · exact normalize_collected allowedIds _

/-! ## Frame -/

theorem recordError_claimsById (index : ClaimIndex) (message : String) :
    (index.recordError message).claimsById = index.claimsById := by
  rw [ClaimIndex.recordError]
  split <;> rfl

/-- An entry becomes the claim of its id unless that id has one. -/
theorem get?_addClaim (index : ClaimIndex) (entry : Value) (n : Nat) (id : String) :
    (index.addClaim (entry, n)).claimsById.get? id =
      (index.claimsById.get? id).or (if claimId? entry = some id then some entry else none) := by
  have hskip : ∀ message, claimId? entry ≠ some id → (index.recordError message).claimsById.get? id =
      (index.claimsById.get? id).or (if claimId? entry = some id then some entry else none) := by
    intro message hne
    rw [recordError_claimsById, if_neg hne, Option.or_none]
  cases entry with
  | object fields =>
    cases hv : (Value.object fields).get "requirement_id" with
    | string rid =>
      have hclaim : claimId? (.object fields) = some rid := by
        rw [claimId?, hv]
        rfl
      simp only [ClaimIndex.addClaim, hv, hclaim, Option.some.injEq]
      cases hhas : index.claimsById.get? rid with
      | some claim =>
        have htrue : index.claimsById.has rid = true := by rw [Map.has, hhas, Option.isSome_some]
        rw [if_pos htrue]
        split
        · next heq => rw [← heq, hhas, Option.some_or]
        · rw [Option.or_none]
      | none =>
        have hfalse : ¬ index.claimsById.has rid = true := by
          rw [Map.has, hhas]
          exact Bool.false_ne_true
        rw [if_neg hfalse, Map.get?_set]
        by_cases heq : id = rid
        · rw [if_pos heq, if_pos heq.symm, heq, hhas, Option.none_or]
        · rw [if_neg heq, if_neg (Ne.symm heq), Option.or_none]
    | _ =>
      simp only [ClaimIndex.addClaim, hv]
      refine hskip _ fun h => ?_
      rw [claimId?, hv] at h
      cases h
  | _ => exact hskip _ fun h => by cases h

/-- The claim of a requirement is the first entry with its id. -/
theorem get?_indexClaims (coveragePayload : Value) (id : String) :
    (indexClaims coveragePayload).claimsById.get? id =
      (payloadEntries coveragePayload).find? fun claim => claimId? claim = some id := by
  have hfold : ∀ (entries : List (Value × Nat)) (index : ClaimIndex),
      (entries.foldl ClaimIndex.addClaim index).claimsById.get? id =
        (index.claimsById.get? id).or ((entries.map Prod.fst).find? fun claim => claimId? claim = some id) := by
    intro entries
    induction entries with
    | nil => exact fun index => (Option.or_none).symm
    | cons e entries ih =>
      intro index
      obtain ⟨entry, n⟩ := e
      rw [foldl_cons, ih, get?_addClaim, Option.or_assoc, map_cons, List.find?_cons]
      congr 1
      by_cases he : claimId? entry = some id
      · simp [he]
      · simp [he]
  rw [indexClaims, hfold, zipIdx_map_fst]
  rfl

theorem payloadEntries_merge (coveragePayload repaired : Value) :
    payloadEntries (mergeTraceClaims coveragePayload repaired) = payloadEntries coveragePayload ++
      appendRepaired (namedIds (payloadEntries coveragePayload)) (payloadEntries repaired) := rfl

/-- An id that the payload names keeps its claim. -/
theorem get?_indexClaims_merge {coveragePayload : Value} {id : String}
    (h : id ∈ namedIds (payloadEntries coveragePayload)) (repaired : Value) :
    (indexClaims (mergeTraceClaims coveragePayload repaired)).claimsById.get? id =
      (indexClaims coveragePayload).claimsById.get? id := by
  obtain ⟨claim, hclaim, hid⟩ := mem_filterMap.mp h
  have hsome : ((payloadEntries coveragePayload).find? fun claim => claimId? claim = some id).isSome = true := by
    rw [List.find?_isSome]
    exact ⟨claim, hclaim, by simpa using hid⟩
  rw [get?_indexClaims, get?_indexClaims, payloadEntries_merge, List.find?_append, Option.or_of_isSome hsome]

/-- Two rows of one requirement, the same one if the payload names its id. -/
def SameIfNamed (coveragePayload : Value) (row row' : RequirementTraceRow) : Prop :=
  row.requirementId = row'.requirementId ∧
    (row.requirementId ∈ namedIds (payloadEntries coveragePayload) → row = row')

theorem outOfScopeRow_id (checks : TraceChecks) (entry : TracedLedgerEntry) (reason : String) (claim : Option Value) :
    (checks.outOfScopeRow entry reason claim).requirementId = entry.id := by
  rw [TraceChecks.outOfScopeRow]
  split <;> rfl

theorem traceRows_merge (checks : TraceChecks) (context : TraceContext) (inScope : List TracedLedgerEntry)
    (outOfScope : List (TracedLedgerEntry × String)) (coveragePayload repaired : Value) :
    List.Forall₂ (SameIfNamed coveragePayload)
      (validateRequirementTrace checks context inScope outOfScope (mergeTraceClaims coveragePayload repaired)).rows
      (validateRequirementTrace checks context inScope outOfScope coveragePayload).rows := by
  rw [validateRequirementTrace, validateRequirementTrace]
  split
  · exact .nil
  · refine rel_append ?_ ?_
    · rw [forall₂_map_left_iff, forall₂_map_right_iff, forall₂_same]
      refine fun entry _ => ⟨rfl, fun hid => ?_⟩
      have hid : entry.id ∈ namedIds (payloadEntries coveragePayload) := hid
      rw [get?_indexClaims_merge hid]
    · rw [forall₂_map_left_iff, forall₂_map_right_iff, forall₂_same]
      intro e _
      refine ⟨by rw [outOfScopeRow_id, outOfScopeRow_id], fun hid => ?_⟩
      rw [outOfScopeRow_id] at hid
      rw [get?_indexClaims_merge hid]

/-! ## Missing ids -/

theorem mem_namedIds_appendRepaired {id : String} (claims : List Value) (present : List String) :
    id ∈ namedIds (appendRepaired present claims) ↔ id ∈ namedIds claims ∧ id ∉ present := by
  induction claims generalizing present with
  | nil => simp [appendRepaired, namedIds]
  | cons claim claims ih =>
    rw [appendRepaired]
    cases hrid : claimId? claim with
    | none =>
      have hnamed : namedIds (claim :: claims) = namedIds claims := filterMap_cons_none hrid
      rw [hnamed]
      exact ih present
    | some rid =>
      have hnamed : namedIds (claim :: claims) = rid :: namedIds claims := filterMap_cons_some hrid
      rw [hnamed]
      dsimp only
      split
      · next hpresent =>
        rw [ih, mem_cons]
        have hmem : rid ∈ present := by simpa using hpresent
        constructor
        · exact fun h => ⟨.inr h.1, h.2⟩
        · rintro ⟨rfl | h, hn⟩
          · exact absurd hmem hn
          · exact ⟨h, hn⟩
      · next hpresent =>
        have hmem : rid ∉ present := by simpa using hpresent
        have hfirst : namedIds (claim :: appendRepaired (rid :: present) claims) =
            rid :: namedIds (appendRepaired (rid :: present) claims) := filterMap_cons_some hrid
        rw [hfirst, mem_cons, mem_cons, ih, mem_cons, not_or]
        constructor
        · rintro (rfl | ⟨h, -, hn⟩)
          · exact ⟨.inl rfl, hmem⟩
          · exact ⟨.inr h, hn⟩
        · rintro ⟨rfl | h, hn⟩
          · exact .inl rfl
          · by_cases heq : id = rid
            · exact .inl heq
            · exact .inr ⟨h, heq, hn⟩

theorem mem_namedIds_merge {id : String} (coveragePayload repaired : Value) :
    id ∈ namedIds (payloadEntries (mergeTraceClaims coveragePayload repaired)) ↔
      id ∈ namedIds (payloadEntries coveragePayload) ∨ id ∈ namedIds (payloadEntries repaired) := by
  rw [payloadEntries_merge, namedIds, filterMap_append, mem_append, ← namedIds, ← namedIds,
    mem_namedIds_appendRepaired]
  tauto

/-- Still missing are the missing ids that no repaired claim names. -/
theorem missing_merge (coveragePayload repaired : Value) (ids : List String) :
    missingTraceRequirementIds (mergeTraceClaims coveragePayload repaired) ids =
      (missingTraceRequirementIds coveragePayload ids).filter fun id => !(namedIds (payloadEntries repaired)).contains id := by
  rw [missingTraceRequirementIds, missingTraceRequirementIds, filter_filter]
  apply filter_congr
  intro id _
  rw [Bool.eq_iff_iff]
  simp only [Bool.and_eq_true, Bool.not_eq_true', contains_eq_mem, decide_eq_false_iff_not, mem_namedIds_merge,
    not_or]
  exact and_comm

theorem appendRepaired_of_present {claims : List Value} {present : List String}
    (h : ∀ id ∈ namedIds claims, id ∈ present) : appendRepaired present claims = [] := by
  induction claims with
  | nil => rfl
  | cons claim claims ih =>
    rw [appendRepaired]
    cases hrid : claimId? claim with
    | none =>
      rw [namedIds, filterMap_cons_none hrid, ← namedIds] at h
      exact ih h
    | some rid =>
      rw [namedIds, filterMap_cons_some hrid, ← namedIds] at h
      have hmem : present.contains rid = true := by simpa using h rid mem_cons_self
      simp only [hmem, if_true]
      exact ih fun id hid => h id (mem_cons_of_mem _ hid)

theorem merge_merge (coveragePayload repaired : Value) :
    mergeTraceClaims (mergeTraceClaims coveragePayload repaired) repaired = mergeTraceClaims coveragePayload repaired := by
  have hnone := @appendRepaired_of_present (payloadEntries repaired)
    (namedIds (payloadEntries (mergeTraceClaims coveragePayload repaired)))
    fun id hid => (mem_namedIds_merge coveragePayload repaired).mpr (.inr hid)
  rw [mergeTraceClaims, hnone, append_nil]
  rfl

/-- Repair fills only what is missing: its answers are sanitized, whatever they say, and merging any claims keeps the row
of every requirement that had one, leaves missing exactly what neither names, and is done once. -/
theorem repair_fills_missing (extractSpecialistJson : Option String → Value) (allowedIds : String → Bool) :
    (∀ payload, ∃ ids, Collected allowedIds ids (normalizeTraceRepairPayload allowedIds payload).claims) ∧
      (∀ text, ∃ ids, Collected allowedIds ids
        (parseTraceRepairResponse extractSpecialistJson allowedIds text).claims) ∧
      ∀ coveragePayload repaired,
        (∀ checks context inScope outOfScope, List.Forall₂ (SameIfNamed coveragePayload)
          (validateRequirementTrace checks context inScope outOfScope (mergeTraceClaims coveragePayload repaired)).rows
          (validateRequirementTrace checks context inScope outOfScope coveragePayload).rows) ∧
        (∀ ids, missingTraceRequirementIds (mergeTraceClaims coveragePayload repaired) ids =
          (missingTraceRequirementIds coveragePayload ids).filter fun id =>
            !(namedIds (payloadEntries repaired)).contains id) ∧
        mergeTraceClaims (mergeTraceClaims coveragePayload repaired) repaired =
          mergeTraceClaims coveragePayload repaired :=
  ⟨normalize_collected allowedIds, parse_collected extractSpecialistJson allowedIds, fun coveragePayload repaired =>
    ⟨fun checks context inScope outOfScope => traceRows_merge checks context inScope outOfScope coveragePayload repaired,
      missing_merge coveragePayload repaired, merge_merge coveragePayload repaired⟩⟩

end PrReviewer.Enforcement
