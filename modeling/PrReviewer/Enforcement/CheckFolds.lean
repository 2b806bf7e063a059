import PrReviewer.Enforcement.CheckAnswers
import PrReviewer.Enforcement.Derived

/-!
# The two folds of the required checks

A required check is answered twice: as a row of the coverage (`evaluateRequiredCheckCoverage`) and as a
`must_check` obligation (`foldObligationDispositions`). Each is settled by the one disposition that matches
the check, but the matches are different: the coverage collapses white space and control characters up to
the blank, the obligations collapse white space only. `foldsAgree_iff` says when the two come out the same.
-/

open Js List

namespace PrReviewer.Enforcement

open Model (RequiredCheckStatus Stated NormalizedRequiredCheckDisposition)

/-! ## Obligations from the checks -/

/-- One row of the candidates artifact; a row without an id, a source or a text is skipped. -/
def candidateToObligation (row : Value) : Option ObligationRow :=
  if !Model.isRecord row then none
  else
    let source : Option ReviewObligationSource :=
      match (row.get "source").string? with
      | some "must_check" => some .mustCheck
      | some "trusted_base_guidance" => some .trustedBaseGuidance
      | _ => none
    match source, (row.get "text").string?, (row.get "id").string? with
    | some source, some text, some id =>
      if trim text == "" || trim id == "" then none
      else some { id, source, text := trim text, status := .unresolved }
    | _, _, _ => none

/-- The obligation of a check at its place among the checks. -/
def mustCheckObligation (index : Nat) (text : String) : ObligationRow where
  id := "obligation-" ++ toString (index + 1)
  source := .mustCheck
  text := trim text
  status := .unresolved

/-- The obligations of the candidates artifact, those of the checks when it has none. -/
def candidateRowsToObligations (rows : List Value) (mustCheck : List String) : List ObligationRow :=
  let obligations := rows.filterMap candidateToObligation
  if obligations.length = 0 then
    (mustCheck.filter fun text => trim text != "").mapIdx mustCheckObligation
  else obligations

/-- A normalised disposition as the obligation fold compares it. -/
def obligationAnswer (item : NormalizedRequiredCheckDisposition) : Disposition where
  check := item.check
  status :=
    match item.status with
    | .known status => status.text
    -- no word, so equal to no word
    | .inherited name => "member " ++ name
    | .invalid => "invalid"
  rationale := item.rationale

/-! ## The contract -/

section

variable (toLowerCase : String → String)

/-- The folded obligation of a check agrees with the row of the check in the coverage. -/
def AgreesOn (coverage : RequiredCheckCoverage) (check : String) (obligation : ObligationRow) : Prop :=
  (obligation.status = .satisfied ↔ ∃ row ∈ coverage.checks,
    checkIdentity toLowerCase row.check = checkIdentity toLowerCase check ∧ isClean row = true) ∧
  (obligation.status = .unmet ↔ ∃ row ∈ coverage.checks,
    checkIdentity toLowerCase row.check = checkIdentity toLowerCase check ∧ row.status = .unmet)

/-- The two folds agree on every check. -/
def FoldsAgree (checks : List String) (dispositions : Option (List NormalizedRequiredCheckDisposition)) :
    Prop :=
  List.Forall₂ (AgreesOn toLowerCase (evaluateRequiredCheckCoverage toLowerCase checks dispositions)) checks
    (foldObligationDispositions toLowerCase (candidateRowsToObligations [] checks)
      (dispositions.map fun items => items.map obligationAnswer))

/-- How a disposition settles its check: met, not met, or not at all. -/
inductive Settlement where
  | met
  | unmet
  | open
  deriving DecidableEq, Repr

def settlementOf (item : NormalizedRequiredCheckDisposition) : Settlement :=
  match item.status with
  | .known .satisfied | .known .notApplicable => .met
  | .known .unmet => .unmet
  | _ => .open

/-- What a single matching disposition settles; several settle nothing. -/
def soleSettlement : List NormalizedRequiredCheckDisposition → Settlement
  | [item] => settlementOf item
  | _ => .open

/-- The dispositions with the identity of the check, as the coverage matches them. -/
def identityMatches (check : String) (dispositions : List NormalizedRequiredCheckDisposition) :
    List NormalizedRequiredCheckDisposition :=
  if checkIdentity toLowerCase check = "" then []
  else dispositions.filter fun item =>
    checkIdentity toLowerCase item.check == checkIdentity toLowerCase check

/-- The dispositions with the text of the check, as the obligations match them. -/
def echoMatches (check : String) (dispositions : List NormalizedRequiredCheckDisposition) :
    List NormalizedRequiredCheckDisposition :=
  dispositions.filter fun item => normalized toLowerCase item.check == normalized toLowerCase (trim check)

/-! ## Normalised dispositions -/

/-- A status that needs a rationale has one. -/
def Grounds (item : NormalizedRequiredCheckDisposition) : Prop :=
  (item.status = .known .notApplicable ∨ item.status = .known .unmet) →
    ∃ rationale, item.rationale = some rationale ∧ Model.reasonLine rationale ≠ "" ∧ trim rationale ≠ ""

variable {item : NormalizedRequiredCheckDisposition}
  {items : List NormalizedRequiredCheckDisposition} {obligation : ObligationRow}

theorem grounds_of_disposition {entry : Value}
    (h : Model.requiredCheckDisposition toLowerCase entry = some item) : Grounds item := by
  obtain ⟨raw, -, -, -, -, rfl⟩ := (requiredCheckDisposition_eq_some toLowerCase).mp h
  have hne := @entryRationale_ne entry
  unfold Grounds Model.dispositionFor
  generalize Model.memberOf Model.requiredCheckStatusAliases _ = stated
  generalize Model.reasonLine raw = check
  rcases stated with _ | given | name
  · simp
  · dsimp only
    split
    · simp
    · rename_i hnone
      intro hstatus
      cases hrationale : Model.entryRationale entry with
      | none =>
        rw [hrationale] at hnone
        rcases hstatus with hstatus | hstatus <;> cases hstatus <;> simp at hnone
      | some rationale =>
        have hline := (hne hrationale).1
        exact ⟨rationale, rfl, hline, trim_of_oneLine hline⟩
  · simp [Stated.ofMember]

/-- The dispositions that the parser returns. -/
theorem grounds_normalize {value : Value} {present : Bool}
    (h : (Model.normalizeRequiredCheckDispositions toLowerCase value present).2 = some items) :
    ∀ item ∈ items, Grounds item := by
  unfold Model.normalizeRequiredCheckDispositions Model.normalizeEntries at h
  split at h
  · cases h
  · split at h
    · rename_i entries
      cases h
      intro item hitem
      obtain ⟨entry, -, hentry⟩ := mem_filterMap.mp (mem_of_mem_take hitem)
      exact grounds_of_disposition toLowerCase hentry
    · cases h

/-- The settlement that a list of answers leaves in the coverage. -/
def rowSettlement : RequiredCheckStatus → Settlement
  | .satisfied | .notApplicable => .met
  | .unmet => .unmet
  | .unresolved => .open

/-- A single disposition settles its row as it says. -/
theorem answeredStatus_of_grounds
    (h : ∀ item ∈ items, Grounds item) :
    rowSettlement (answeredStatus (items.map answerOf)) = soleSettlement items := by
  match items with
  | [] => rfl
  | [item] =>
    have hground := h item (mem_singleton_self item)
    obtain ⟨check, status, rationale⟩ := item
    cases status with
    | known status =>
      cases status with
      | satisfied => rfl
      | unresolved => rfl
      | notApplicable =>
        obtain ⟨rationale, rfl, hline, -⟩ := hground (.inl rfl)
        simp [answerOf, hline, answeredStatus, rowSettlement, soleSettlement, settlementOf]
      | unmet =>
        obtain ⟨rationale, rfl, hline, -⟩ := hground (.inr rfl)
        simp [answerOf, hline, answeredStatus, rowSettlement, soleSettlement, settlementOf]
    | inherited name => rfl
    | invalid => rfl
  | first :: second :: rest =>
    rw [answeredStatus_of_two (by simp)]
    rfl

/-! ## The row of the coverage -/

section Coverage

variable (checks : List String) {dispositions : Option (List NormalizedRequiredCheckDisposition)}
variable (hitems : ∀ item ∈ dispositions.getD [], Grounds item)

include hitems

variable {check : String}

theorem rowSettlement_checkRow (h : check ∈ identified toLowerCase checks) :
    rowSettlement (checkRow toLowerCase checks dispositions check).status
      = soleSettlement (identityMatches toLowerCase check (dispositions.getD [])) := by
  have hne : checkIdentity toLowerCase check ≠ "" := by simpa using (mem_filter.mp h).2
  rw [checkRow_status, answersOf_eq toLowerCase hne, identityMatches, if_neg hne]
  exact answeredStatus_of_grounds fun item hitem => hitems item (mem_filter.mp hitem).1

/-- What the coverage reports for a check: the settlement by the dispositions with its identity. -/
theorem exists_row_iff (hcheck : check ∈ checks) {settlement : Settlement}
    (hsettled : settlement ≠ .open) :
    (∃ row ∈ (evaluateRequiredCheckCoverage toLowerCase checks dispositions).checks,
        checkIdentity toLowerCase row.check = checkIdentity toLowerCase check ∧
          rowSettlement row.status = settlement) ↔
      soleSettlement (identityMatches toLowerCase check (dispositions.getD [])) = settlement := by
  rw [evaluate_checks]
  constructor
  · rintro ⟨row, hrow, hidentity, hstatus⟩
    obtain ⟨other, hother, rfl⟩ := mem_map.mp hrow
    rw [checkRow_identity toLowerCase checks _ hother] at hidentity
    rw [rowSettlement_checkRow toLowerCase checks hitems hother] at hstatus
    rw [← hstatus, identityMatches, identityMatches, hidentity]
  · intro h
    have hne : checkIdentity toLowerCase check ≠ "" := by
      intro hblank
      rw [identityMatches, if_pos hblank] at h
      exact hsettled h.symm
    have hmem : check ∈ identified toLowerCase checks :=
      mem_filter.mpr ⟨hcheck, bne_iff_ne.mpr hne⟩
    refine ⟨_, mem_map_of_mem hmem, checkRow_identity toLowerCase checks _ hmem, ?_⟩
    rw [rowSettlement_checkRow toLowerCase checks hitems hmem, h]

end Coverage

theorem isClean_iff {checks : List String} {dispositions : Option (List NormalizedRequiredCheckDisposition)}
    {row : RequiredCheckRow}
    (h : row ∈ (evaluateRequiredCheckCoverage toLowerCase checks dispositions).checks) :
    isClean row = true ↔ rowSettlement row.status = .met := by
  rw [evaluate_checks] at h
  obtain ⟨check, -, rfl⟩ := mem_map.mp h
  rw [isClean_checkRow, isMet_iff]
  cases (checkRow toLowerCase checks dispositions check).status <;> simp [rowSettlement]

/-! ## The folded obligation -/

/-- The status that a settlement gives an obligation. -/
def Settlement.status : Settlement → ObligationStatus
  | .met => .satisfied
  | .unmet => .unmet
  | .open => .unresolved

/-- The status that a single answer gives a `must_check` obligation. -/
theorem single_status (h : Grounds item) :
    (if (obligationAnswer item).status = "unmet" then
        if (obligationAnswer item).text ≠ "" then ObligationStatus.unmet else .unresolved
      else if (if (obligationAnswer item).status = "satisfied" then
            true || (obligationAnswer item).text != ""
          else (obligationAnswer item).status == "not_applicable" && (obligationAnswer item).text != "")
            = true then ObligationStatus.satisfied else .unresolved)
      = (settlementOf item).status := by
  obtain ⟨check, status, rationale⟩ := item
  cases status with
  | known status =>
    cases status with
    | satisfied => rfl
    | unresolved => rfl
    | notApplicable =>
      obtain ⟨rationale, rfl, -, htrim⟩ := h (.inl rfl)
      have htext : (⟨check, "not_applicable", some rationale⟩ : Disposition).text ≠ "" := htrim
      simp [htext, obligationAnswer, RequiredCheckStatus.text, settlementOf, Settlement.status]
    | unmet =>
      obtain ⟨rationale, rfl, -, htrim⟩ := h (.inr rfl)
      have htext : (⟨check, "unmet", some rationale⟩ : Disposition).text ≠ "" := htrim
      simp [htext, obligationAnswer, RequiredCheckStatus.text, settlementOf, Settlement.status]
  | inherited name =>
    have hword : ∀ word : String, word.toList.head? ≠ some 'm' → "member " ++ name ≠ word := by
      intro word hhead h
      rw [← h, String.toList_append] at hhead
      exact hhead rfl
    have hunmet := hword "unmet" (by decide)
    have hsatisfied := hword "satisfied" (by decide)
    have hwaived := hword "not_applicable" (by decide)
    simp [obligationAnswer, settlementOf, Settlement.status, hunmet, hsatisfied, hwaived]
  | invalid => rfl

theorem foldedStatus_single (hsource : obligation.source = .mustCheck)
    {dispositions : List Disposition} {answer : Disposition}
    (hpool : pool toLowerCase obligation dispositions = [answer]) :
    foldedStatus toLowerCase obligation dispositions
      = if answer.status = "unmet" then if answer.text ≠ "" then .unmet else .unresolved
        else if (if answer.status = "satisfied" then true || answer.text != ""
            else answer.status == "not_applicable" && answer.text != "") = true then .satisfied
        else .unresolved := by
  have hshort : ∀ p : Disposition → Bool, ¬1 < ([answer].filter p).length := by
    intro p
    have hle := length_filter_le p [answer]
    rw [length_singleton] at hle
    omega
  have hsame : [answer].any (·.status != answer.status) = false := by simp
  have hderived : ¬(obligation.source = .derived ∧ obligation.cause = some .derivationIncomplete) := by
    simp [hsource]
  have hnot : obligation.source ≠ .derived := by
    rw [hsource]
    exact nofun
  have hmust : (obligation.source == ReviewObligationSource.mustCheck) = true := by
    rw [hsource]
    rfl
  unfold foldedStatus
  rw [hpool]
  dsimp only
  rw [if_neg (not_or.mpr ⟨hshort _, hshort _⟩), hsame, if_neg Bool.false_ne_true, if_neg hderived,
    if_neg hnot]
  unfold discharges
  rw [hmust]
  rfl

theorem foldedStatus_several {dispositions : List Disposition}
    (htext : ∀ d ∈ pool toLowerCase obligation dispositions,
      (normalized toLowerCase d.check == normalized toLowerCase obligation.text) = true)
    (hlength : (pool toLowerCase obligation dispositions).length ≠ 1) :
    foldedStatus toLowerCase obligation dispositions = .unresolved := by
  unfold foldedStatus
  generalize pool toLowerCase obligation dispositions = answers at htext hlength
  match answers, hlength with
  | [], _ => rfl
  | first :: second :: rest, _ =>
    refine if_pos (Or.inr ?_)
    rw [filter_eq_self.mpr htext]
    simp

/-- A `must_check` obligation is settled by the one disposition that echoes its text. -/
theorem foldedStatus_mustCheck (hsource : obligation.source = .mustCheck)
    {items : List NormalizedRequiredCheckDisposition} (hitems : ∀ item ∈ items, Grounds item) :
    foldedStatus toLowerCase obligation (items.map obligationAnswer)
      = (soleSettlement (items.filter fun item =>
          normalized toLowerCase item.check == normalized toLowerCase obligation.text)).status := by
  have hpool : pool toLowerCase obligation (items.map obligationAnswer)
      = (items.filter fun item =>
          normalized toLowerCase item.check == normalized toLowerCase obligation.text).map
            obligationAnswer := by
    rw [pool, hsource, textMatches, filter_map]
    rfl
  have hecho : ∀ item ∈ items.filter fun item =>
      normalized toLowerCase item.check == normalized toLowerCase obligation.text,
      Grounds item ∧ (normalized toLowerCase item.check == normalized toLowerCase obligation.text) = true :=
    fun item hitem => ⟨hitems item (mem_filter.mp hitem).1, (mem_filter.mp hitem).2⟩
  by_cases hone : (items.filter fun item =>
      normalized toLowerCase item.check == normalized toLowerCase obligation.text).length = 1
  · obtain ⟨item, hitem⟩ := length_eq_one_iff.mp hone
    rw [hitem] at hpool hecho ⊢
    rw [foldedStatus_single toLowerCase hsource hpool]
    exact single_status (hecho item (mem_singleton_self item)).1
  · rw [foldedStatus_several toLowerCase]
    · unfold soleSettlement
      split
      · rename_i hsingle
        rw [hsingle] at hone
        exact absurd rfl hone
      · rfl
    · rw [hpool]
      intro answer hanswer
      obtain ⟨item, hitem, rfl⟩ := mem_map.mp hanswer
      exact (hecho item hitem).2
    · rw [hpool, length_map]
      exact hone

/-! ## The agreement -/

theorem foldOne_status (obligation : ObligationRow) (dispositions : List Disposition) :
    (foldOne toLowerCase obligation dispositions).status
      = foldedStatus toLowerCase obligation dispositions := by
  unfold foldOne
  split <;> simp_all

theorem candidateRowsToObligations_nil {checks : List String} (h : ∀ check ∈ checks, trim check ≠ "") :
    candidateRowsToObligations [] checks = checks.mapIdx mustCheckObligation := by
  have hall : checks.filter (fun text => trim text != "") = checks :=
    filter_eq_self.mpr fun check hcheck => bne_iff_ne.mpr (h check hcheck)
  unfold candidateRowsToObligations
  rw [hall]
  rfl

theorem Settlement.status_eq_satisfied (settlement : Settlement) :
    settlement.status = .satisfied ↔ settlement = .met := by
  cases settlement <;> simp [Settlement.status]

theorem Settlement.status_eq_unmet (settlement : Settlement) :
    settlement.status = .unmet ↔ settlement = .unmet := by
  cases settlement <;> simp [Settlement.status]

theorem soleSettlement_eq_iff (xs ys : List NormalizedRequiredCheckDisposition) :
    soleSettlement xs = soleSettlement ys ↔
      (soleSettlement ys = .met ↔ soleSettlement xs = .met) ∧
        (soleSettlement ys = .unmet ↔ soleSettlement xs = .unmet) := by
  cases soleSettlement xs <;> cases soleSettlement ys <;> simp

/-- On one check the folds agree exactly when the two matches leave the same sole settlement. -/
theorem agreesOn_iff {checks : List String}
    {dispositions : Option (List NormalizedRequiredCheckDisposition)}
    (hitems : ∀ item ∈ dispositions.getD [], Grounds item) {check : String} (hcheck : check ∈ checks)
    (index : Nat) :
    AgreesOn toLowerCase (evaluateRequiredCheckCoverage toLowerCase checks dispositions) check
        (foldOne toLowerCase (mustCheckObligation index check)
          ((dispositions.getD []).map obligationAnswer)) ↔
      soleSettlement (identityMatches toLowerCase check (dispositions.getD []))
        = soleSettlement (echoMatches toLowerCase check (dispositions.getD [])) := by
  have hmet := exists_row_iff toLowerCase checks hitems hcheck (show Settlement.met ≠ .open from nofun)
  have hunmet := exists_row_iff toLowerCase checks hitems hcheck (show Settlement.unmet ≠ .open from nofun)
  have hstatus : (foldOne toLowerCase (mustCheckObligation index check)
        ((dispositions.getD []).map obligationAnswer)).status
      = (soleSettlement (echoMatches toLowerCase check (dispositions.getD []))).status := by
    rw [foldOne_status, foldedStatus_mustCheck toLowerCase rfl hitems]
    rfl
  rw [soleSettlement_eq_iff, ← hmet, ← hunmet]
  unfold AgreesOn
  rw [hstatus, Settlement.status_eq_satisfied, Settlement.status_eq_unmet]
  refine and_congr (iff_congr Iff.rfl ?_) (iff_congr Iff.rfl ?_)
  · refine exists_congr fun row => and_congr_right fun hrow => and_congr_right fun _ => ?_
    exact isClean_iff toLowerCase hrow
  · refine exists_congr fun row => and_congr_right fun _ => and_congr_right fun _ => ?_
    cases row.status <;> simp [rowSettlement]

theorem foldsAgree_of_grounds {dispositions : Option (List NormalizedRequiredCheckDisposition)}
    (hgrounds : ∀ item ∈ dispositions.getD [], Grounds item) {checks : List String}
    (hchecks : ∀ check ∈ checks, trim check ≠ "") :
    FoldsAgree toLowerCase checks dispositions ↔ ∀ check ∈ checks,
      soleSettlement (identityMatches toLowerCase check (dispositions.getD []))
        = soleSettlement (echoMatches toLowerCase check (dispositions.getD [])) := by
  have hgiven : (dispositions.map fun items => items.map obligationAnswer).getD []
      = (dispositions.getD []).map obligationAnswer := by
    cases dispositions <;> rfl
  unfold FoldsAgree foldObligationDispositions
  rw [candidateRowsToObligations_nil hchecks, hgiven, forall₂_iff_get]
  simp only [length_map, length_mapIdx, true_and, get_eq_getElem, getElem_map,
    getElem_mapIdx]
  constructor
  · intro h check hcheck
    obtain ⟨index, hindex, rfl⟩ := mem_iff_getElem.mp hcheck
    exact (agreesOn_iff toLowerCase hgrounds hcheck index).mp (h index hindex hindex)
  · intro h index hindex _
    have hcheck := getElem_mem hindex
    exact (agreesOn_iff toLowerCase hgrounds hcheck index).mpr (h _ hcheck)

theorem grounds_parsed (value : Value) (present : Bool) :
    ∀ item ∈ (Model.normalizeRequiredCheckDispositions toLowerCase value present).2.getD [],
      Grounds item := by
  cases hitems : (Model.normalizeRequiredCheckDispositions toLowerCase value present).2 with
  | none => exact fun item hitem => absurd hitem not_mem_nil
  | some items => exact grounds_normalize toLowerCase hitems

/-- The folds agree exactly when, for every check, the dispositions with its identity and those that echo
its text are the same sole answer, or neither are one. -/
theorem foldsAgree_iff (value : Value) (present : Bool) (checks : List String)
    (hchecks : ∀ check ∈ checks, trim check ≠ "") :
    FoldsAgree toLowerCase checks
        (Model.normalizeRequiredCheckDispositions toLowerCase value present).2 ↔
      ∀ check ∈ checks,
        soleSettlement (identityMatches toLowerCase check
            ((Model.normalizeRequiredCheckDispositions toLowerCase value present).2.getD []))
          = soleSettlement (echoMatches toLowerCase check
            ((Model.normalizeRequiredCheckDispositions toLowerCase value present).2.getD [])) :=
  foldsAgree_of_grounds toLowerCase (grounds_parsed toLowerCase value present) hchecks

end

theorem foldsAgree_plain :
    FoldsAgree id ["a b"]
      (Model.normalizeRequiredCheckDispositions id (.array [answerTo "a b" "satisfied"]) true).2 :=
  (foldsAgree_iff id (.array [answerTo "a b" "satisfied"]) true ["a b"] (by decide +kernel)).mpr
    (by decide +kernel)

/-- A no-break space in the text of a check is white space for the obligations only. -/
theorem folds_disagree :
    ¬FoldsAgree id ["a\u00a0b"]
      (Model.normalizeRequiredCheckDispositions id (.array [answerTo "a b" "satisfied"]) true).2 := by
  rw [foldsAgree_of_grounds id (grounds_parsed id _ true) (by decide +kernel)]
  decide +kernel

end PrReviewer.Enforcement
