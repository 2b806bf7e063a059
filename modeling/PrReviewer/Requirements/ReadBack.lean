import PrReviewer.Js.Dedup
import PrReviewer.Js.Lines
import PrReviewer.Js.Slice
import PrReviewer.Requirements.TracePlan
import Mathlib.Data.List.Flatten

/-!
# A built plan and its reader

`src/requirements/trace-plan.ts`: the reader cleans again what the builder has cleaned, and derives the demand again, from
the text that the row carries. `readTracePlan_buildTracePlan_iff` says when it gives back the plan that was built: when no
name of a seam ends in white space after its cut, and the text of each row demands after its cut what it did before.
-/

namespace PrReviewer.Requirements

open Js Json List
open Tools (TraceSeamHint TraceProofShape)

/-! ## Cleaning again -/

theorem trim_sublist (s : String) : (trim s).toList.Sublist s.toList := by
  rw [trim_toList]
  exact (List.rdropWhile_prefix ..).sublist.trans (dropWhile_sublist _)

theorem strLength_trim_le (s : String) : strLength (trim s) ≤ strLength s := by
  exact ((trim_sublist s).flatMap charUnits).length_le

theorem cleanPattern_of_mem {raw : Value} {pattern : String} (h : cleanPattern raw = some pattern) :
    cleanPattern (.string pattern) = some pattern := by
  cases raw with
  | string raw =>
    simp only [cleanPattern] at h
    split at h
    · cases h
    · next hkept =>
      obtain rfl := Option.some.inj h
      have hclean : (trim (String.ofList (raw.toList.filter fun c => !isControl c))).toList.filter (fun c => !isControl c)
          = (trim (String.ofList (raw.toList.filter fun c => !isControl c))).toList := by
        rw [filter_eq_self]
        intro c hc
        have hmem := (trim_sublist _).subset hc
        rw [String.toList_ofList] at hmem
        exact (mem_filter.mp hmem).2
      simp only [cleanPattern]
      rw [hclean, String.ofList_toList, trim_trim, if_neg hkept]
  | _ => cases h

theorem cleanSeamPatterns_again (patterns : List Value) :
    cleanSeamPatterns ((cleanSeamPatterns patterns).map .string) = cleanSeamPatterns patterns := by
  have hread : ((cleanSeamPatterns patterns).map Value.string).filterMap cleanPattern = cleanSeamPatterns patterns := by
    rw [filterMap_map]
    refine (filterMap_congr fun pattern hpattern => ?_).trans filterMap_some
    obtain ⟨raw, -, hraw⟩ := mem_filterMap.mp (mem_eraseDups.mp (mem_of_mem_take hpattern))
    rw [Function.comp_apply, cleanPattern_of_mem hraw]
  have hnodup : (cleanSeamPatterns patterns).Nodup := by
    rw [cleanSeamPatterns]
    exact List.Nodup.sublist (take_sublist _ _) (nodup_eraseDups _)
  have hlength : (cleanSeamPatterns patterns).length ≤ MAX_SEAM_PATTERNS := by
    rw [cleanSeamPatterns]
    exact length_take_le _ _
  generalize cleanSeamPatterns patterns = kept at hread hnodup hlength ⊢
  rw [cleanSeamPatterns, hread, eraseDups_of_nodup hnodup, take_of_length_le hlength]

/-- A seam as the builder cleans it: cleaning it again can only cut white space at the end of its name. -/
structure CleanSeam (seam : TraceSeamHint) : Prop where
  name : cleanSeamName seam.name = trim seam.name
  named : trim seam.name ≠ ""
  owners : cleanSeamPatterns (seam.owners.map .string) = seam.owners
  tests : cleanSeamPatterns (seam.tests.map .string) = seam.tests

theorem cleanSeamName_again (raw : String) : cleanSeamName (cleanSeamName raw) = trim (cleanSeamName raw) := by
  have hclean : (cleanSeamName raw).toList.filter (fun c => !isControl c && c.toNat ≠ 0x60) = (cleanSeamName raw).toList := by
    rw [filter_eq_self]
    intro c hc
    have hmem := (trim_sublist _).subset (mem_of_mem_sliceTo hc)
    rw [String.toList_ofList] at hmem
    exact (mem_filter.mp hmem).2
  conv_lhs => rw [cleanSeamName, hclean, String.ofList_toList]
  exact sliceTo_of_le ((strLength_trim_le _).trans (strLength_sliceTo _ _))

/-- A name that is not empty does not begin with white space, so something of it stays. -/
theorem trim_cleanSeamName_ne {raw : String} (h : cleanSeamName raw ≠ "") : trim (cleanSeamName raw) ≠ "" := by
  obtain ⟨c, cs, hname⟩ : ∃ c cs, (cleanSeamName raw).toList = c :: cs :=
    exists_cons_of_ne_nil (by simpa using h)
  have hprefix : (cleanSeamName raw).toList
      <+: (trim (String.ofList (raw.toList.filter fun c => !isControl c && c.toNat ≠ 0x60))).toList := by
    rw [cleanSeamName, sliceTo, String.toList_ofList]
    exact prefix_takeUnits _ _
  have hspace : isSpace c = false := by
    generalize htrim : trim (String.ofList (raw.toList.filter fun c => !isControl c && c.toNat ≠ 0x60)) = t at hprefix
    have hagain : trim t = t := by rw [← htrim, trim_trim]
    obtain ⟨rest, hrest⟩ := hprefix
    rw [hname, cons_append] at hrest
    by_contra hc
    rw [Bool.not_eq_false] at hc
    have hdrop := trim_toList t
    rw [hagain, ← hrest, dropWhile_cons_of_pos hc] at hdrop
    have hlength := congrArg List.length hdrop
    have hle := (List.rdropWhile_prefix isSpace ((cs ++ rest).dropWhile isSpace)).length_le
    have hle' := (dropWhile_sublist isSpace (l := cs ++ rest)).length_le
    rw [trimEnd] at hlength
    rw [length_cons] at hlength
    omega
  obtain ⟨text, spaces, -, htext, hhead⟩ := exists_trim cs hspace
  rw [← hname, String.ofList_toList] at htext
  rw [htext]
  rintro hnil
  rw [String.ofList_eq_empty_iff] at hnil
  rw [hnil] at hhead
  cases hhead

variable {seam : TraceSeamHint} {seams : List TraceSeamHint}

theorem cleanSeam_of_cleanSeamHint {group : Value} (h : cleanSeamHint group = some seam) :
    CleanSeam seam := by
  cases group with
  | object fields =>
    simp only [cleanSeamHint] at h
    split at h
    · next name owners tests _ _ _ =>
      split at h
      · cases h
      · next hname =>
        obtain rfl := Option.some.inj h
        exact ⟨cleanSeamName_again name, trim_cleanSeamName_ne hname, cleanSeamPatterns_again owners,
          cleanSeamPatterns_again tests⟩
    · cases h
  | _ => cases h

/-! ## The seams of a built row -/

theorem cleanSeam_of_mem {hints : List Value} {id : String} (h : seam ∈ planSeamHints hints id) :
    CleanSeam seam := by
  rw [planSeamHints] at h
  split at h
  · unfold keptSeams at h
    split at h
    · obtain ⟨group, -, hgroup⟩ := mem_filterMap.mp (distinctBy_sublist.subset h)
      exact cleanSeam_of_cleanSeamHint hgroup
    · cases h
  · cases h

theorem nodup_planSeamHints (hints : List Value) (id : String) : ((planSeamHints hints id).map (·.name)).Nodup := by
  rw [planSeamHints]
  split
  · unfold keptSeams
    split
    · exact nodup_distinctBy
    · exact nodup_nil
  · exact nodup_nil

theorem cleanSeamHint_seamValue (h : CleanSeam seam) :
    cleanSeamHint (seamValue seam) = some { seam with name := trim seam.name } := by
  have hread : cleanSeamHint (seamValue seam) = if cleanSeamName seam.name = "" then none
      else some ⟨cleanSeamName seam.name, cleanSeamPatterns (seam.owners.map .string), cleanSeamPatterns (seam.tests.map .string)⟩ :=
    rfl
  rw [hread, h.name, h.owners, h.tests, if_neg h.named]

theorem readSeams_seamValue (h : ∀ seam ∈ seams, CleanSeam seam) :
    readSeams (seams.map seamValue) = some (distinctBy (·.name) (seams.map fun seam => { seam with name := trim seam.name })) := by
  have hread : (seams.map seamValue).mapM cleanSeamHint = some (seams.map fun seam => { seam with name := trim seam.name }) := by
    induction seams with
    | nil => rfl
    | cons seam seams ih =>
      rw [map_cons, mapM_cons, cleanSeamHint_seamValue (h seam mem_cons_self),
        ih fun other hother => h other (mem_cons_of_mem _ hother)]
      rfl
  rw [readSeams, hread, Option.map_some]

/-- The seams are read back exactly when no name ends in white space. -/
theorem readSeams_eq_iff (h : ∀ seam ∈ seams, CleanSeam seam)
    (hnodup : (seams.map (·.name)).Nodup) :
    readSeams (seams.map seamValue) = some seams ↔ ∀ seam ∈ seams, trim seam.name = seam.name := by
  rw [readSeams_seamValue h, Option.some_inj]
  constructor
  · intro heq
    have hsub : (distinctBy (·.name) (seams.map fun seam => { seam with name := trim seam.name })).Sublist _ :=
      distinctBy_sublist
    rw [heq] at hsub
    have hsame := hsub.eq_of_length (by rw [length_map])
    intro seam hseam
    have heach := map_inj_left.mp (hsame.symm.trans (map_id seams).symm) seam hseam
    exact congrArg (·.name) heach
  · intro htrim
    have hsame : (seams.map fun seam => { seam with name := trim seam.name }) = seams := by
      refine (map_congr_left fun seam hseam => ?_).trans (map_id seams)
      rw [htrim seam hseam]
      rfl
    rw [hsame, distinctBy_of_nodup hnodup]

/-! ## The rows -/

theorem cleanPlanId_again (id : String) : cleanPlanId (cleanPlanId id) = cleanPlanId id := by
  have hclean : (cleanPlanId id).toList.filter isTokenChar = (cleanPlanId id).toList := by
    rw [filter_eq_self]
    intro c hc
    have hmem := mem_of_mem_sliceTo hc
    rw [String.toList_ofList] at hmem
    exact (mem_filter.mp hmem).2
  conv_lhs => rw [cleanPlanId, hclean, String.ofList_toList]
  exact sliceTo_of_le (strLength_sliceTo _ _)

theorem parseShape_shapeText (shape : TraceProofShape) : parseShape (shapeText shape) = some shape := by
  cases shape <;> decide

theorem parseTracePlanRow_rowValue (reading : TextReading) (row : TracePlanRow) :
    parseTracePlanRow reading (rowValue row) = (guard (cleanPlanId row.id ≠ "") : Option Unit).bind fun _ =>
      (readSeams (row.seams.map seamValue)).bind fun seams =>
      (parseShape (shapeText row.proofShape)).bind fun shape =>
      (boundedInteger? (2 * MAX_GROUPS_PER_RULE) (.count row.requiredAttempts)).bind fun attempts =>
      (guard (coheres reading row.text seams row.codeVerifiable shape attempts) : Option Unit).bind fun _ =>
      some ⟨cleanPlanId row.id, row.text, row.kind, seams, row.codeVerifiable, shape, attempts⟩ := by
  have hid : (rowValue row).get "id" = .string row.id := rfl
  have htext : (rowValue row).get "text" = .string row.text := rfl
  have hkind : (rowValue row).get "kind" = .string row.kind := rfl
  have hseams : (rowValue row).get "seams" = .array (row.seams.map seamValue) := rfl
  have hverifiable : (rowValue row).get "code_verifiable" = .bool row.codeVerifiable := rfl
  have hshape : (rowValue row).get "proof_shape" = .string (shapeText row.proofShape) := rfl
  have hattempts : (rowValue row).get "required_attempts" = .count row.requiredAttempts := rfl
  simp only [parseTracePlanRow, hid, htext, hkind, hseams, hverifiable, hshape, hattempts]
  rfl

/-- What a demand can be. -/
theorem proofDemandFor_cases (reading : TextReading) (text : String) (seams : List TraceSeamHint) :
    (MIN_DISTRIBUTED_GROUPS ≤ seams.length ∧
      proofDemandFor reading text seams = (.distributed, 2 * min seams.length MAX_GROUPS_PER_RULE)) ∨
    (seams.length < MIN_DISTRIBUTED_GROUPS ∧ (proofDemandFor reading text seams = (.structural, 1) ∨
      proofDemandFor reading text seams = (.structural, 2) ∨ proofDemandFor reading text seams = (.nonCode, 0) ∨
      proofDemandFor reading text seams = (.runtime, 2))) := by
  unfold proofDemandFor
  split
  · next hseams => exact .inl ⟨hseams, rfl⟩
  · next hseams =>
    refine .inr ⟨Nat.lt_of_not_le hseams, ?_⟩
    split
    · split
      · exact .inr (.inl rfl)
      · exact .inl rfl
    · split
      · exact .inr (.inr (.inl rfl))
      · exact .inr (.inr (.inr rfl))

theorem proofDemandFor_le (reading : TextReading) (text : String) (seams : List TraceSeamHint) :
    (proofDemandFor reading text seams).2 ≤ 2 * MAX_GROUPS_PER_RULE := by
  rcases proofDemandFor_cases reading text seams with ⟨-, h⟩ | ⟨-, h | h | h | h⟩ <;> rw [h]
  · exact Nat.mul_le_mul_left 2 (min_le_right _ _)
  all_goals decide

/-- The fields of a built row agree with each other; with another text they do when it demands the same. -/
theorem coheres_demand (reading : TextReading) (text text' : String) (seams : List TraceSeamHint) :
    coheres reading text' seams (decide (0 < (proofDemandFor reading text seams).2)) (proofDemandFor reading text seams).1
      (proofDemandFor reading text seams).2 = true ↔
    proofDemandFor reading text' seams = proofDemandFor reading text seams := by
  rcases proofDemandFor_cases reading text seams with ⟨hseams, h⟩ | ⟨hseams, h | h | h | h⟩ <;> rw [h]
  · have hpos : 0 < 2 * min seams.length MAX_GROUPS_PER_RULE := by
      have hgroups : MIN_DISTRIBUTED_GROUPS = 2 ∧ MAX_GROUPS_PER_RULE = 4 := ⟨rfl, rfl⟩
      omega
    simp [coheres, hpos, hseams]
  all_goals simp [coheres, hseams]

theorem parse_planRow_iff (reading : TextReading) {entry : LedgerEntry} {seams : List TraceSeamHint}
    (hid : cleanPlanId entry.id ≠ "") (h : ∀ seam ∈ seams, CleanSeam seam) (hnodup : (seams.map (·.name)).Nodup) :
    parseTracePlanRow reading (rowValue (planRow reading entry seams)) = some (planRow reading entry seams) ↔
      (∀ seam ∈ seams, trim seam.name = seam.name) ∧
        proofDemandFor reading (boundedText entry.text) seams = proofDemandFor reading entry.text seams := by
  have hattempts : boundedInteger? (2 * MAX_GROUPS_PER_RULE) (.count (proofDemandFor reading entry.text seams).2)
      = some (proofDemandFor reading entry.text seams).2 := if_pos (proofDemandFor_le reading entry.text seams)
  rw [← readSeams_eq_iff h hnodup, parseTracePlanRow_rowValue]
  simp only [planRow, cleanPlanId_again, parseShape_shapeText, hattempts, Option.bind_some]
  rw [← coheres_demand reading entry.text (boundedText entry.text) seams]
  constructor
  · intro hrow
    obtain ⟨_, -, hrow⟩ := Option.bind_eq_some_iff.mp hrow
    obtain ⟨seams', hseams', hrow⟩ := Option.bind_eq_some_iff.mp hrow
    obtain ⟨_, hguard, hrow⟩ := Option.bind_eq_some_iff.mp hrow
    obtain rfl : seams' = seams := congrArg TracePlanRow.seams (Option.some.inj hrow)
    refine ⟨hseams', ?_⟩
    by_contra hfalse
    simp [guard, hfalse] at hguard
  · rintro ⟨hseams, hcoheres⟩
    rw [hseams]
    simp [hid, hcoheres]

/-! ## The plan -/

theorem counted_strings (strings : List String) : Counted (.array (strings.map .string)) := by
  refine .array fun v hv => ?_
  obtain ⟨s, -, rfl⟩ := mem_map.mp hv
  exact .string s

theorem counted_rowValue {row : TracePlanRow} (h : row.requiredAttempts < 2 ^ 53) : Counted (rowValue row) := by
  have hseams : Counted (.array (row.seams.map seamValue)) := by
    refine .array fun v hv => ?_
    obtain ⟨seam, -, rfl⟩ := mem_map.mp hv
    refine .record ["name", "owners", "tests"] rfl (by decide) (by decide) fun f hf => ?_
    simp only [mem_cons, not_mem_nil, or_false] at hf
    rcases hf with rfl | rfl | rfl
    · exact .string _
    · exact counted_strings _
    · exact counted_strings _
  refine .record ["id", "text", "kind", "seams", "code_verifiable", "proof_shape", "required_attempts"] rfl (by decide)
    (by decide) fun f hf => ?_
  simp only [mem_cons, not_mem_nil, or_false] at hf
  rcases hf with rfl | rfl | rfl | rfl | rfl | rfl | rfl
  · exact .string _
  · exact .string _
  · exact .string _
  · exact hseams
  · exact .bool _
  · exact .string _
  · exact .count h

theorem counted_planValue {plan : TracePlan} (hversion : plan.version < 2 ^ 53)
    (h : ∀ row ∈ plan.rows, row.requiredAttempts < 2 ^ 53) : Counted (planValue plan) := by
  refine .record ["version", "rows"] rfl (by decide) (by decide) fun f hf => ?_
  simp only [mem_cons, not_mem_nil, or_false] at hf
  rcases hf with rfl | rfl
  · exact .count hversion
  · refine .array fun v hv => ?_
    obtain ⟨row, hrow, rfl⟩ := mem_map.mp hv
    exact counted_rowValue (h row hrow)

theorem mapM_eq_self_iff {α : Type} {f : α → Option α} (as : List α) : as.mapM f = some as ↔ ∀ a ∈ as, f a = some a := by
  induction as with
  | nil => simp
  | cons a as ih =>
    rw [mapM_cons, forall_mem_cons, ← ih]
    constructor
    · intro h
      obtain ⟨b, hb, h⟩ := Option.bind_eq_some_iff.mp h
      obtain ⟨bs, hbs, h⟩ := Option.bind_eq_some_iff.mp h
      obtain ⟨rfl, rfl⟩ := List.cons.inj (Option.some.inj h)
      exact ⟨hb, hbs⟩
    · rintro ⟨ha, has⟩
      rw [ha, has]
      rfl

theorem length_plannedEntries (input : PlanInput) : (plannedEntries input).length ≤ MAX_TRACE_PLAN_ROWS :=
  length_take_le _ _

theorem cleanPlanId_ne {input : PlanInput} {entry : LedgerEntry} (h : entry ∈ plannedEntries input) :
    cleanPlanId entry.id ≠ "" := by
  have hkept := (mem_filter.mp (distinctBy_sublist.subset (mem_of_mem_take h))).2
  simpa using hkept

/-- The reader takes the rows of the artifact one by one, and all of them or none. -/
theorem readTracePlan_buildTracePlan (reading : TextReading) (input : PlanInput) :
    readTracePlan reading (some (jsonStringify (planValue (buildTracePlan reading input)))) =
      ⟨TRACE_PLAN_VERSION, ((buildTracePlan reading input).rows.mapM fun row =>
        parseTracePlanRow reading (rowValue row)).getD []⟩ := by
  have hcounted : Counted (planValue (buildTracePlan reading input)) := by
    refine counted_planValue (show TRACE_PLAN_VERSION < 2 ^ 53 by decide) fun row hrow => ?_
    obtain ⟨entry, -, rfl⟩ := mem_map.mp hrow
    exact (proofDemandFor_le reading entry.text _).trans_lt (by decide)
  have hrows : ((buildTracePlan reading input).rows.map rowValue).length ≤ MAX_TRACE_PLAN_ROWS := by
    rw [length_map, buildTracePlan, length_map]
    exact length_plannedEntries input
  have hversion : boundedInteger? TRACE_PLAN_VERSION ((planValue (buildTracePlan reading input)).get "version")
      = some TRACE_PLAN_VERSION := rfl
  have hget : (planValue (buildTracePlan reading input)).get "rows"
      = .array ((buildTracePlan reading input).rows.map rowValue) := rfl
  have hread : readRows reading (planValue (buildTracePlan reading input)) =
      (buildTracePlan reading input).rows.mapM fun row => parseTracePlanRow reading (rowValue row) := by
    simp only [readRows, hversion, hget, if_pos]
    rw [take_of_length_le hrows, mapM_map]
    rfl
  rw [readTracePlan, Option.bind_some, parse_jsonStringify hcounted, Option.bind_some, hread]

/-- A built plan is given back when each of its rows is read as itself. -/
theorem readTracePlan_eq_iff (reading : TextReading) (input : PlanInput) :
    readTracePlan reading (some (jsonStringify (planValue (buildTracePlan reading input)))) = buildTracePlan reading input ↔
      ∀ entry ∈ plannedEntries input, parseTracePlanRow reading
        (rowValue (planRow reading entry (planSeamHints input.distributedHints entry.id)))
          = some (planRow reading entry (planSeamHints input.distributedHints entry.id)) := by
  have hall : (∀ row ∈ (buildTracePlan reading input).rows, parseTracePlanRow reading (rowValue row) = some row) ↔ _ :=
    forall_mem_map
  rw [readTracePlan_buildTracePlan, ← hall, ← mapM_eq_self_iff]
  constructor
  · intro heq
    have hrows := congrArg TracePlan.rows heq
    dsimp only at hrows
    cases hread : (buildTracePlan reading input).rows.mapM fun row => parseTracePlanRow reading (rowValue row) with
    | some rows =>
      rw [hread] at hrows
      exact congrArg some hrows
    | none =>
      rw [hread, Option.getD_none] at hrows
      rw [← hrows] at hread
      cases hread
  · intro heq
    rw [heq]
    rfl

/-- A built plan is what its reader gives back exactly when, in every row, no name of a seam ends in white space and the
bounded text demands what the text of the ledger does. -/
theorem readBack_iff (reading : TextReading) (input : PlanInput) :
    readTracePlan reading (some (jsonStringify (planValue (buildTracePlan reading input)))) = buildTracePlan reading input ↔
      ∀ entry ∈ plannedEntries input,
        (∀ seam ∈ planSeamHints input.distributedHints entry.id, trim seam.name = seam.name) ∧
        proofDemandFor reading (boundedText entry.text) (planSeamHints input.distributedHints entry.id)
          = proofDemandFor reading entry.text (planSeamHints input.distributedHints entry.id) := by
  rw [readTracePlan_eq_iff]
  exact forall₂_congr fun entry hentry => parse_planRow_iff reading (cleanPlanId_ne hentry)
    (fun seam hseam => cleanSeam_of_mem hseam) (nodup_planSeamHints input.distributedHints entry.id)

/-! ## A requirement whose end is cut -/

/-- A text that is about documentation at its end, behind the first 400 characters. -/
def notedChars : List Char :=
  ['N', 'o', 't', 'e', 'd', ':', ' '] ++ List.replicate 400 '.' ++
    [' ', 'd', 'o', 'c', 'u', 'm', 'e', 'n', 't', 'a', 't', 'i', 'o', 'n']

def notedText : String := String.ofList notedChars

/-- The classifiers, as they are on `notedText` and on its beginning. -/
def notedReading : TextReading where
  structural _ := false
  requiresTest _ := false
  nonCode text := decide (['d', 'o', 'c', 'u', 'm', 'e', 'n', 't', 'a', 't', 'i', 'o', 'n'] <:+: text.toList)

def notedInput : PlanInput where
  ledger := .object [("requirements", .array [.object [("id", .string "req-1"), ("text", .string notedText),
    ("kind", .string "acceptance")]])]
  scopeIds := ["req-1"]
  distributedHints := []

theorem nonCode_notedText : notedReading.nonCode notedText = true := by
  have htext : notedText.toList = notedChars := String.toList_ofList
  have hfound : ['d', 'o', 'c', 'u', 'm', 'e', 'n', 't', 'a', 't', 'i', 'o', 'n'] <:+: notedChars := by decide +kernel
  simp only [notedReading, htext, hfound, decide_true]

theorem nonCode_boundedText : notedReading.nonCode (boundedText notedText) = false := by
  have htext : notedText.toList = notedChars := String.toList_ofList
  have hlength : MAX_TRACE_PLAN_ROW_TEXT_CHARS < (notedChars.flatMap charUnits).length := by decide +kernel
  have hcut : takeUnits MAX_TRACE_PLAN_ROW_TEXT_CHARS notedChars
      = ['N', 'o', 't', 'e', 'd', ':', ' '] ++ List.replicate 393 '.' := by decide +kernel
  have hbounded : (boundedText notedText).toList = ['N', 'o', 't', 'e', 'd', ':', ' '] ++ List.replicate 393 '.' := by
    rw [boundedText, strLength, utf16, htext, if_pos hlength, sliceTo, htext, String.toList_ofList, hcut]
  have hmissing : ¬ ['d', 'o', 'c', 'u', 'm', 'e', 'n', 't', 'a', 't', 'i', 'o', 'n']
      <:+: ['N', 'o', 't', 'e', 'd', ':', ' '] ++ List.replicate 393 '.' := by decide +kernel
  simp only [notedReading, hbounded, hmissing, decide_false]

theorem readBack_fails : readTracePlan notedReading (some (jsonStringify (planValue (buildTracePlan notedReading notedInput))))
    ≠ buildTracePlan notedReading notedInput := by
  rw [ne_eq, readTracePlan_eq_iff]
  intro h
  have hentry : ⟨"req-1", notedText, "acceptance"⟩ ∈ plannedEntries notedInput := mem_cons_self
  have hrow := (parse_planRow_iff notedReading (cleanPlanId_ne hentry) (fun _ hseam => cleanSeam_of_mem hseam)
    (nodup_planSeamHints _ _)).mp (h _ hentry)
  have hstructural (text : String) : notedReading.structural text = false := rfl
  have hcut : proofDemandFor notedReading (boundedText notedText) [] = (.runtime, 2) := by
    simp [proofDemandFor, hstructural, nonCode_boundedText, MIN_DISTRIBUTED_GROUPS]
  have hwhole : proofDemandFor notedReading notedText [] = (.nonCode, 0) := by
    simp [proofDemandFor, hstructural, nonCode_notedText, MIN_DISTRIBUTED_GROUPS]
  have hsame : proofDemandFor notedReading (boundedText notedText) [] = proofDemandFor notedReading notedText [] := hrow.2
  rw [hcut, hwhole] at hsame
  cases hsame

end PrReviewer.Requirements
