import PrReviewer.Enforcement.RequiredChecks
import PrReviewer.Js.Slice

/-!
# Double answers

Two answers to one check must not pass as one. `NotLaundered` states this over the raw entries of a
response; the parser keeps the first entries up to its cap and drops an entry with an over-long text, and
`notLaundered_iff` says exactly when that does not matter.
-/

open Js List

namespace PrReviewer.Enforcement

open Model (RequiredCheckStatus Stated Member NormalizedRequiredCheckDisposition)

variable (toLowerCase : String → String)

/-! ## Entries of a response -/

/-- The dispositions parsed from the entries. -/
def parsedDispositions (entries : List Value) : Option (List NormalizedRequiredCheckDisposition) :=
  (Model.normalizeRequiredCheckDispositions toLowerCase (.array entries) true).2

/-- The coverage of the checks by the entries of a response. -/
def coverageOf (checks : List String) (entries : List Value) : RequiredCheckCoverage :=
  evaluateRequiredCheckCoverage toLowerCase checks (parsedDispositions toLowerCase entries)

/-- An object entry with a check text of this identity. -/
def carries (identity : String) (entry : Value) : Bool :=
  Model.isRecord entry
    && (entry.get "check").string?.any fun raw => checkIdentity toLowerCase raw == identity

/-- The entry gives this status, with the rationale the status needs. -/
def answersWith (status : RequiredCheckStatus) (entry : Value) : Bool :=
  Model.memberOf Model.requiredCheckStatusAliases (Model.wordOf toLowerCase (entry.get "status"))
      == some (.own status)
    && (status == .satisfied || status == .unresolved
      || (entry.get "rationale").string?.any fun raw => Model.reasonLine raw != "")

/-- The entry answers that its check is met. -/
def isPositive (entry : Value) : Bool :=
  answersWith toLowerCase .satisfied entry || answersWith toLowerCase .notApplicable entry

/-- The entry settles its check, either way. -/
def isDecisive (entry : Value) : Bool := isPositive toLowerCase entry || answersWith toLowerCase .unmet entry

/-- The text of the entry's check is one the parser keeps: not blank, and within its bound. -/
def isAttributable (entry : Value) : Bool :=
  Model.isRecord entry && (entry.get "check").string?.any fun raw =>
    Model.reasonLine raw != "" && strLength (Model.reasonLine raw) ≤ Model.maxRequiredCheckChars

/-! ## The contract -/

/-- No answers of a response are laundered. -/
structure NotLaundered (checks : List String) (entries : List Value) : Prop where
  /-- A row is met only by the one entry of the response that answers its check. -/
  single : ∀ row ∈ (coverageOf toLowerCase checks entries).checks, isMet row = true → ∃ entry,
    entries.filter (carries toLowerCase (checkIdentity toLowerCase row.check)) = [entry] ∧
      answersWith toLowerCase row.status entry = true
  complete : (coverageOf toLowerCase checks entries).status = .complete ↔
    (coverageOf toLowerCase checks entries).checks ≠ [] ∧
      ∀ row ∈ (coverageOf toLowerCase checks entries).checks, isMet row = true
  /-- The order of the entries does not matter. -/
  order : ∀ entries' : List Value, entries'.Perm entries →
    (coverageOf toLowerCase checks entries').checks.map (·.status)
      = (coverageOf toLowerCase checks entries).checks.map (·.status)

/-- The entries of a check that the parser keeps when it does not reach its cap. -/
def attributableTo (identity : String) (entry : Value) : Bool :=
  isAttributable entry && carries toLowerCase identity entry

/-- For one check: the cap cuts nothing, or no kept answer settles the check, or it always leaves two of
its answers; and where it cuts nothing, a check whose one usable answer is positive has no other. -/
structure Unambiguous (entries : List Value) (identity : String) : Prop where
  capped : entries.countP isAttributable ≤ Model.maxRequiredChecks ∨
    (∀ entry ∈ entries, attributableTo toLowerCase identity entry = true → isDecisive toLowerCase entry = false) ∨
      entries.countP isAttributable + 1
        < Model.maxRequiredChecks + entries.countP (attributableTo toLowerCase identity)
  alone : entries.countP isAttributable ≤ Model.maxRequiredChecks → ∀ entry,
    entries.filter (attributableTo toLowerCase identity) = [entry] → isPositive toLowerCase entry = true →
      entries.filter (carries toLowerCase identity) = [entry]

/-! ## What the parser makes of an entry -/

/-- What a disposition answers, none where it is malformed. -/
def answerOf (item : NormalizedRequiredCheckDisposition) :
    Option (RequiredCheckStatus × Option String) :=
  match item.status with
  | .known status =>
    if (status = .notApplicable ∨ status = .unmet) ∧
        (item.rationale.map Model.reasonLine).getD "" = "" then none
    else some (status, item.rationale)
  | _ => none

theorem validateDisposition_eq (item : NormalizedRequiredCheckDisposition) :
    validateDisposition toLowerCase item
      = if checkIdentity toLowerCase item.check == "" then none
        else some ⟨checkIdentity toLowerCase item.check, answerOf item⟩ := by
  unfold validateDisposition answerOf
  dsimp only
  cases item.status with
  | known status =>
    dsimp only
    split
    · rfl
    · split <;> rfl
  | inherited name => rfl
  | invalid => rfl

theorem answersOf_eq {identity : String} (h : identity ≠ "")
    (dispositions : List NormalizedRequiredCheckDisposition) :
    answersOf toLowerCase identity dispositions
      = (dispositions.filter fun item => checkIdentity toLowerCase item.check == identity).map answerOf := by
  refine filterMap_of_mem fun item _ => ?_
  rw [validateDisposition_eq]
  by_cases hsame : checkIdentity toLowerCase item.check = identity
  · have hne : (checkIdentity toLowerCase item.check == "") = false := by simpa [hsame] using h
    rw [hne]
    simp [hsame]
  · rw [if_neg (c := (checkIdentity toLowerCase item.check == identity) = true) (by simpa using hsame)]
    split <;> simp [hsame]

/-- A bounded non-blank line is not blank, also after another collapse. -/
theorem reasonLine_sliceTo {raw : String} {limit : Nat} (hlimit : 2 ≤ limit)
    (h : Model.reasonLine raw ≠ "") : Model.reasonLine (sliceTo limit (Model.reasonLine raw)) ≠ "" := by
  obtain ⟨c, hhead⟩ : ∃ c, (Model.reasonLine raw).toList.head? = some c := by
    cases hlist : (Model.reasonLine raw).toList with
    | nil => exact absurd (String.toList_eq_nil_iff.mp hlist) h
    | cons c cs => exact ⟨c, rfl⟩
  obtain ⟨hspace, hcontrol⟩ := oneLine_head (by decide) hhead
  obtain ⟨cs, hlist⟩ := List.head?_eq_some_iff.mp hhead
  have hunits : (charUnits c).length ≤ limit := by
    unfold charUnits
    split
    · exact Nat.le_trans (Nat.le_succ 1) hlimit
    · exact hlimit
  refine oneLine_ne_empty ?_ hspace hcontrol
  rw [sliceTo, hlist, String.toList_ofList, takeUnits, if_pos hunits]
  rfl

theorem dispositionFor_check (check : String) (status : Option (Member RequiredCheckStatus))
    (rationale : Option String) : (Model.dispositionFor check status rationale).check = check := by
  unfold Model.dispositionFor
  split
  · rfl
  · split <;> rfl

variable {item : Value} {d : NormalizedRequiredCheckDisposition}

theorem requiredCheckDisposition_eq_some :
    Model.requiredCheckDisposition toLowerCase item = some d ↔
      ∃ raw, Model.isRecord item = true ∧ (item.get "check").string? = some raw ∧
        Model.reasonLine raw ≠ "" ∧ strLength (Model.reasonLine raw) ≤ Model.maxRequiredCheckChars ∧
        d = Model.dispositionFor (Model.reasonLine raw) (Model.memberOf Model.requiredCheckStatusAliases
          (Model.wordOf toLowerCase (item.get "status"))) (Model.entryRationale item) := by
  unfold Model.requiredCheckDisposition
  cases hrecord : Model.isRecord item with
  | false => simp
  | true =>
    simp only [Bool.not_true, Bool.false_eq_true, if_false, Option.bind_eq_some_iff, true_and]
    refine exists_congr fun raw => and_congr_right fun _ => ?_
    generalize Model.dispositionFor _ _ _ = built
    generalize Model.maxRequiredCheckChars = cap
    have hguard : (Model.reasonLine raw == "" || decide (strLength (Model.reasonLine raw) > cap)) = false ↔
        Model.reasonLine raw ≠ "" ∧ strLength (Model.reasonLine raw) ≤ cap := by
      rw [Bool.or_eq_false_iff, beq_eq_false_iff_ne, decide_eq_false_iff_not, Nat.not_lt]
    split
    · rename_i hcut
      rw [← Bool.not_eq_false, hguard] at hcut
      exact iff_of_false nofun fun h => hcut ⟨h.1, h.2.1⟩
    · rename_i hkept
      rw [Bool.not_eq_true, hguard] at hkept
      rw [Option.some_inj]
      exact ⟨fun h => ⟨hkept.1, hkept.2, h.symm⟩, fun h => h.2.2.symm⟩

theorem isSome_requiredCheckDisposition (item : Value) :
    (Model.requiredCheckDisposition toLowerCase item).isSome = isAttributable item := by
  rw [Bool.eq_iff_iff, Option.isSome_iff_exists]
  unfold isAttributable
  rw [Bool.and_eq_true, Option.any_eq_true]
  constructor
  · rintro ⟨d, hd⟩
    obtain ⟨raw, hrecord, hraw, hne, hlength, -⟩ := (requiredCheckDisposition_eq_some toLowerCase).mp hd
    exact ⟨hrecord, raw, hraw, Bool.and_eq_true_iff.mpr ⟨bne_iff_ne.mpr hne, decide_eq_true hlength⟩⟩
  · rintro ⟨hrecord, raw, hraw, hcheck⟩
    rw [Bool.and_eq_true] at hcheck
    exact ⟨_, (requiredCheckDisposition_eq_some toLowerCase).mpr
      ⟨raw, hrecord, hraw, bne_iff_ne.mp hcheck.1, of_decide_eq_true hcheck.2, rfl⟩⟩

theorem orNull_eq_some {text kept : String} (h : Model.orNull text = some kept) : kept = text ∧ text ≠ "" := by
  unfold Model.orNull at h
  split at h
  · cases h
  · rename_i hne
    exact ⟨(Option.some.inj h).symm, by simpa using hne⟩

theorem sliceTo_empty (limit : Nat) : sliceTo limit "" = "" := by
  have hnil : takeUnits limit "".toList = [] := by
    rw [String.toList_empty, takeUnits]
  rw [sliceTo, hnil]

/-- The parser keeps a rationale not blank. -/
theorem entryRationale_ne {item : Value} {rationale : String}
    (h : Model.entryRationale item = some rationale) :
    Model.reasonLine rationale ≠ "" ∧
      ((item.get "rationale").string?.any fun raw => Model.reasonLine raw != "") = true := by
  unfold Model.entryRationale at h
  rw [Option.bind_eq_some_iff] at h
  obtain ⟨raw, hraw, hbound⟩ := h
  obtain ⟨heq, hne⟩ := orNull_eq_some hbound
  have hblank : Model.reasonLine raw ≠ "" := by
    intro hempty
    rw [hempty, sliceTo_empty] at hne
    exact hne rfl
  have hkept := @reasonLine_sliceTo raw Model.maxRationaleChars (by decide) hblank
  rw [hraw, heq, Option.any_some, bne_iff_ne]
  exact ⟨hkept, hblank⟩

/-- What it does not keep is blank. -/
theorem entryRationale_none {item : Value} (h : Model.entryRationale item = none) :
    ((item.get "rationale").string?.any fun raw => Model.reasonLine raw != "") = false := by
  rw [Option.any_eq_false]
  intro raw hraw
  by_contra hne
  rw [Bool.not_eq_false, bne_iff_ne] at hne
  have hkept := @reasonLine_sliceTo raw Model.maxRationaleChars (by decide) hne
  unfold Model.entryRationale at h
  rw [Option.bind_eq_none_iff] at h
  have hall := h raw hraw
  unfold Model.orNull at hall
  split at hall
  · rename_i hempty
    rw [eq_of_beq hempty] at hkept
    exact hkept rfl
  · cases hall

/-- A kept entry answers what it says, with the rationale that takes. -/
theorem answerOf_iff
    (h : Model.requiredCheckDisposition toLowerCase item = some d) (status : RequiredCheckStatus) :
    (∃ rationale, answerOf d = some (status, rationale)) ↔ answersWith toLowerCase status item = true := by
  obtain ⟨raw, -, -, -, -, rfl⟩ := (requiredCheckDisposition_eq_some toLowerCase).mp h
  have hne := @entryRationale_ne item
  have hnone := @entryRationale_none item
  unfold answersWith
  generalize Model.memberOf Model.requiredCheckStatusAliases _ = stated
  generalize Model.reasonLine raw = check
  generalize ((item.get "rationale").string?.any fun raw => Model.reasonLine raw != "") = stands at *
  rcases stated with _ | given | name
  · simp [Model.dispositionFor, answerOf]
  · cases hkept : Model.entryRationale item with
    | none =>
      rw [hnone hkept]
      cases given <;> cases status <;>
        simp [Model.dispositionFor, answerOf, Stated.ofMember]
    | some rationale =>
      obtain ⟨hline, hstands⟩ := hne hkept
      cases given <;> cases status <;>
        simp [Model.dispositionFor, answerOf, Stated.ofMember, hstands, hline]
  · simp [Model.dispositionFor, answerOf, Stated.ofMember]

/-! ## Entries and dispositions -/

/-- The dispositions of all entries, before the cap. -/
def attributed (entries : List Value) : List NormalizedRequiredCheckDisposition :=
  entries.filterMap (Model.requiredCheckDisposition toLowerCase)

/-- The disposition is for the check of this identity. -/
def answersCheck (identity : String) (item : NormalizedRequiredCheckDisposition) : Bool :=
  checkIdentity toLowerCase item.check == identity

theorem carries_of_disposition
    (h : Model.requiredCheckDisposition toLowerCase item = some d) (identity : String) :
    carries toLowerCase identity item = answersCheck toLowerCase identity d := by
  obtain ⟨raw, hrecord, hraw, -, -, rfl⟩ := (requiredCheckDisposition_eq_some toLowerCase).mp h
  have hsame : Model.reasonLine (Model.reasonLine raw) = Model.reasonLine raw :=
    oneLine_oneLine (by decide) raw
  unfold carries answersCheck checkIdentity
  rw [hrecord, hraw, Option.any_some, Bool.true_and, dispositionFor_check, hsame]

theorem length_filterMap {α β : Type} (f : α → Option β) (l : List α) :
    (l.filterMap f).length = l.countP fun a => (f a).isSome := by
  induction l with
  | nil => rfl
  | cons a l ih =>
    rw [filterMap_cons, countP_cons, ← ih]
    cases f a <;> rfl

theorem length_attributed (entries : List Value) :
    (attributed toLowerCase entries).length = entries.countP isAttributable := by
  unfold attributed
  rw [length_filterMap]
  exact countP_congr fun item _ => by rw [isSome_requiredCheckDisposition]

/-- The dispositions of one check come from its usable entries. -/
theorem filter_attributed (identity : String) (entries : List Value) :
    (attributed toLowerCase entries).filter (answersCheck toLowerCase identity)
      = attributed toLowerCase (entries.filter (attributableTo toLowerCase identity)) := by
  unfold attributed
  induction entries with
  | nil => rfl
  | cons item entries ih =>
    rw [filterMap_cons, filter_cons]
    cases hitem : Model.requiredCheckDisposition toLowerCase item with
    | none =>
      have hnot : attributableTo toLowerCase identity item = false := by
        rw [attributableTo, ← isSome_requiredCheckDisposition toLowerCase, hitem]
        rfl
      rw [hnot]
      exact ih
    | some d =>
      have hsame : attributableTo toLowerCase identity item = answersCheck toLowerCase identity d := by
        rw [attributableTo, ← isSome_requiredCheckDisposition toLowerCase, hitem,
          carries_of_disposition toLowerCase hitem]
        rfl
      rw [hsame, filter_cons, ih]
      split
      · rw [filterMap_cons, hitem]
      · rfl

theorem length_filter_attributed (identity : String) (entries : List Value) :
    ((attributed toLowerCase entries).filter (answersCheck toLowerCase identity)).length
      = entries.countP (attributableTo toLowerCase identity) := by
  rw [filter_attributed, length_attributed, countP_filter]
  refine countP_congr fun item _ => ?_
  unfold attributableTo
  cases isAttributable item <;> simp

/-- An order of the dispositions comes from an order of the entries. -/
theorem exists_perm_filterMap {α β : Type} (f : α → Option β) {bs bs' : List β} (h : bs.Perm bs') :
    ∀ {l : List α}, l.filterMap f = bs → ∃ l' : List α, l'.Perm l ∧ l'.filterMap f = bs' := by
  induction h with
  | nil => exact fun hl => ⟨_, .refl _, hl⟩
  | cons b _ ih =>
    intro l hl
    obtain ⟨before, a, after, rfl, hbefore, ha, hafter⟩ := filterMap_eq_cons_iff.mp hl
    obtain ⟨after', hperm, hmap⟩ := ih hafter
    refine ⟨before ++ a :: after', (hperm.cons a).append_left before, ?_⟩
    rw [filterMap_append, filterMap_cons, ha, hmap, filterMap_eq_nil_iff.mpr hbefore]
    rfl
  | swap b c bs =>
    intro l hl
    obtain ⟨before, a, after, rfl, hbefore, ha, hafter⟩ := filterMap_eq_cons_iff.mp hl
    obtain ⟨between, a', rest, rfl, hbetween, ha', hrest⟩ := filterMap_eq_cons_iff.mp hafter
    refine ⟨before ++ a' :: (a :: between ++ rest), ?_, ?_⟩
    · have hmiddle : (a' :: (a :: between ++ rest)).Perm (a :: between ++ a' :: rest) := perm_middle.symm
      exact hmiddle.append_left before
    · simp [filterMap_append, ha, ha', hrest, filterMap_eq_nil_iff.mpr hbefore,
        filterMap_eq_nil_iff.mpr hbetween]
  | trans _ _ ih ih' =>
    intro l hl
    obtain ⟨l₁, hperm₁, hl₁⟩ := ih hl
    obtain ⟨l₂, hperm₂, hl₂⟩ := ih' hl₁
    exact ⟨l₂, hperm₂.trans hperm₁, hl₂⟩

/-! ## Rows -/

section Rows

variable (checks : List String) (entries : List Value)

/-- The status the entries leave for the check of this identity. -/
def coveredStatus (identity : String) : RequiredCheckStatus :=
  keptStatus (answersCheck toLowerCase identity) answerOf Model.maxRequiredChecks
    (attributed toLowerCase entries)

/-- The row of a check in the coverage. -/
def coveredRow (check : String) : RequiredCheckRow :=
  checkRow toLowerCase checks (parsedDispositions toLowerCase entries) check

theorem coverageOf_checks : (coverageOf toLowerCase checks entries).checks
    = (identified toLowerCase checks).map (coveredRow toLowerCase checks entries) :=
  evaluate_checks toLowerCase checks _

variable {check identity : String} {d : NormalizedRequiredCheckDisposition} {entry : Value}

theorem coveredRow_status (h : check ∈ identified toLowerCase checks) :
    (coveredRow toLowerCase checks entries check).status
      = coveredStatus toLowerCase entries (checkIdentity toLowerCase check) := by
  have hne : checkIdentity toLowerCase check ≠ "" := by simpa using (mem_filter.mp h).2
  rw [coveredRow, checkRow_status, answersOf_eq toLowerCase hne]
  rfl

theorem coveredRow_identity (h : check ∈ identified toLowerCase checks) :
    checkIdentity toLowerCase (coveredRow toLowerCase checks entries check).check
      = checkIdentity toLowerCase check :=
  checkRow_identity toLowerCase checks _ h

theorem complete_iff : (coverageOf toLowerCase checks entries).status = .complete ↔
    (coverageOf toLowerCase checks entries).checks ≠ [] ∧
      ∀ row ∈ (coverageOf toLowerCase checks entries).checks, isMet row = true := by
  have hclean : ∀ row ∈ (coverageOf toLowerCase checks entries).checks, isClean row = isMet row := by
    rw [coverageOf_checks]
    intro row hrow
    obtain ⟨check, -, rfl⟩ := mem_map.mp hrow
    exact isClean_checkRow toLowerCase checks _ check
  have hstatus : (coverageOf toLowerCase checks entries).status = .complete ↔
      0 < (coverageOf toLowerCase checks entries).checks.length ∧
        (coverageOf toLowerCase checks entries).checks.all isClean = true := by
    unfold coverageOf evaluateRequiredCheckCoverage
    split
    · simp
    · dsimp only
      split
      · rename_i hmet
        exact iff_of_true rfl hmet
      · rename_i hmet
        exact iff_of_false (by decide) hmet
  rw [hstatus, all_eq_true, length_pos_iff]
  refine and_congr_right fun _ => forall₂_congr fun row hrow => ?_
  rw [hclean row hrow]

/-! ## The order of the entries -/

theorem isDecisive_iff {item : Value}
    (h : Model.requiredCheckDisposition toLowerCase item = some d) :
    IsDecisive answerOf d ↔ isDecisive toLowerCase item = true := by
  have hanswer := answerOf_iff toLowerCase h
  unfold IsDecisive isDecisive isPositive
  rw [Bool.or_eq_true, Bool.or_eq_true, ← hanswer, ← hanswer, ← hanswer]
  constructor
  · rintro ⟨status, rationale, hd, hne⟩
    cases status with
    | satisfied => exact .inl (.inl ⟨rationale, hd⟩)
    | notApplicable => exact .inl (.inr ⟨rationale, hd⟩)
    | unresolved => exact absurd rfl hne
    | unmet => exact .inr ⟨rationale, hd⟩
  · rintro ((⟨rationale, hd⟩ | ⟨rationale, hd⟩) | ⟨rationale, hd⟩)
    · exact ⟨_, rationale, hd, nofun⟩
    · exact ⟨_, rationale, hd, nofun⟩
    · exact ⟨_, rationale, hd, nofun⟩

theorem mem_attributed :
    d ∈ attributed toLowerCase entries ↔
      ∃ item ∈ entries, Model.requiredCheckDisposition toLowerCase item = some d :=
  mem_filterMap

theorem undecided_iff (identity : String) :
    (∀ d ∈ attributed toLowerCase entries, answersCheck toLowerCase identity d = true →
        ¬IsDecisive answerOf d) ↔
      ∀ entry ∈ entries, attributableTo toLowerCase identity entry = true →
        isDecisive toLowerCase entry = false := by
  constructor
  · intro h entry hentry husable
    rw [attributableTo, Bool.and_eq_true, ← isSome_requiredCheckDisposition toLowerCase,
      Option.isSome_iff_exists] at husable
    obtain ⟨⟨d, hd⟩, hcarries⟩ := husable
    rw [carries_of_disposition toLowerCase hd] at hcarries
    have hnot := h d ((mem_attributed toLowerCase entries).mpr ⟨entry, hentry, hd⟩) hcarries
    rw [isDecisive_iff toLowerCase hd] at hnot
    exact Bool.eq_false_iff.mpr hnot
  · intro h d hd hanswers
    obtain ⟨entry, hentry, hitem⟩ := (mem_attributed toLowerCase entries).mp hd
    rw [isDecisive_iff toLowerCase hitem, Bool.not_eq_true]
    refine h entry hentry ?_
    rw [attributableTo, ← isSome_requiredCheckDisposition toLowerCase, hitem,
      carries_of_disposition toLowerCase hitem, hanswers]
    rfl

/-- The status of one check is the same in every order of the entries. -/
theorem coveredStatus_perm_iff (identity : String) :
    (∀ entries' : List Value, entries'.Perm entries →
        coveredStatus toLowerCase entries' identity = coveredStatus toLowerCase entries identity) ↔
      entries.countP isAttributable ≤ Model.maxRequiredChecks ∨
        (∀ entry ∈ entries, attributableTo toLowerCase identity entry = true →
          isDecisive toLowerCase entry = false) ∨
        entries.countP isAttributable + 1
          < Model.maxRequiredChecks + entries.countP (attributableTo toLowerCase identity) := by
  rw [← undecided_iff, ← length_attributed toLowerCase entries, ← length_filter_attributed,
    ← keptStatus_perm_iff (show 2 ≤ Model.maxRequiredChecks by decide)]
  constructor
  · intro h dispositions hperm
    obtain ⟨entries', hentries, hmap⟩ := exists_perm_filterMap
      (Model.requiredCheckDisposition toLowerCase) hperm.symm rfl
    have hsame := h entries' hentries
    unfold coveredStatus attributed at hsame
    rw [hmap] at hsame
    exact hsame
  · intro h entries' hperm
    exact h _ (hperm.filterMap _)

theorem order_iff :
    (∀ entries' : List Value, entries'.Perm entries →
        (coverageOf toLowerCase checks entries').checks.map (·.status)
          = (coverageOf toLowerCase checks entries).checks.map (·.status)) ↔
      ∀ check ∈ identified toLowerCase checks, ∀ entries' : List Value, entries'.Perm entries →
        coveredStatus toLowerCase entries' (checkIdentity toLowerCase check)
          = coveredStatus toLowerCase entries (checkIdentity toLowerCase check) := by
  have hstatuses : ∀ entries' : List Value,
      (coverageOf toLowerCase checks entries').checks.map (·.status)
        = (identified toLowerCase checks).map fun check =>
            coveredStatus toLowerCase entries' (checkIdentity toLowerCase check) := by
    intro entries'
    rw [coverageOf_checks, map_map]
    exact map_congr_left fun check hcheck => coveredRow_status toLowerCase checks entries' hcheck
  simp only [hstatuses, map_inj_left]
  exact ⟨fun h check hcheck entries' hperm => h entries' hperm check hcheck,
    fun h entries' hperm check hcheck => h check hcheck entries' hperm⟩

/-! ## The one answer of a met check -/

/-- A met status comes from the one kept disposition of the check. -/
theorem met_status
    (hmet : coveredStatus toLowerCase entries identity = .satisfied ∨
      coveredStatus toLowerCase entries identity = .notApplicable) :
    ∃ d, ((attributed toLowerCase entries).take Model.maxRequiredChecks).filter
        (answersCheck toLowerCase identity) = [d] ∧
      ∃ rationale, answerOf d = some (coveredStatus toLowerCase entries identity, rationale) := by
  refine keptStatus_ne ?_
  change coveredStatus toLowerCase entries identity ≠ .unresolved
  rcases hmet with h | h <;> rw [h] <;> exact nofun

theorem answersWith_of_met
    {status : RequiredCheckStatus} (hd : Model.requiredCheckDisposition toLowerCase entry = some d)
    (hmet : status = .satisfied ∨ status = .notApplicable)
    (hanswer : ∃ rationale, answerOf d = some (status, rationale)) :
    answersWith toLowerCase status entry = true ∧ isPositive toLowerCase entry = true := by
  have h := (answerOf_iff toLowerCase hd status).mp hanswer
  refine ⟨h, ?_⟩
  unfold isPositive
  rcases hmet with rfl | rfl <;> rw [h]
  · rfl
  · rw [Bool.or_true]

/-- The dispositions of one check come from one usable entry. -/
theorem usable_singleton
    (h : (attributed toLowerCase entries).filter (answersCheck toLowerCase identity) = [d]) :
    ∃ entry, entries.filter (attributableTo toLowerCase identity) = [entry] ∧
      Model.requiredCheckDisposition toLowerCase entry = some d := by
  have hlength := length_filter_attributed toLowerCase identity entries
  rw [h, length_singleton, countP_eq_length_filter] at hlength
  obtain ⟨entry, hentry⟩ := length_eq_one_iff.mp hlength.symm
  rw [filter_attributed, hentry] at h
  refine ⟨entry, hentry, ?_⟩
  cases hitem : Model.requiredCheckDisposition toLowerCase entry with
  | none => simp [attributed, hitem] at h
  | some d' => simpa [attributed, hitem] using h

/-- A check with one positive entry is met when the cap cuts nothing. -/
theorem coveredStatus_of_alone
    (hshort : entries.countP isAttributable ≤ Model.maxRequiredChecks)
    (hentry : entries.filter (attributableTo toLowerCase identity) = [entry])
    (hpositive : isPositive toLowerCase entry = true) :
    coveredStatus toLowerCase entries identity = .satisfied ∨
      coveredStatus toLowerCase entries identity = .notApplicable := by
  have husable : attributableTo toLowerCase identity entry = true :=
    (mem_filter.mp (hentry ▸ mem_singleton_self entry)).2
  rw [attributableTo, Bool.and_eq_true, ← isSome_requiredCheckDisposition toLowerCase,
    Option.isSome_iff_exists] at husable
  obtain ⟨⟨d, hd⟩, -⟩ := husable
  have hkept : ((attributed toLowerCase entries).take Model.maxRequiredChecks).filter
      (answersCheck toLowerCase identity) = [d] := by
    rw [take_of_length_le (length_attributed toLowerCase entries ▸ hshort), filter_attributed, hentry]
    simp [attributed, hd]
  rw [isPositive, Bool.or_eq_true, ← answerOf_iff toLowerCase hd, ← answerOf_iff toLowerCase hd] at hpositive
  rcases hpositive with ⟨rationale, hanswer⟩ | ⟨rationale, hanswer⟩
  · exact .inl (keptStatus_single hkept hanswer)
  · exact .inr (keptStatus_single hkept hanswer)

/-- A met row is answered by one entry of the whole response. -/
theorem single_of_unambiguous
    (h : Unambiguous toLowerCase entries identity)
    (hmet : coveredStatus toLowerCase entries identity = .satisfied ∨
      coveredStatus toLowerCase entries identity = .notApplicable) :
    ∃ entry, entries.filter (carries toLowerCase identity) = [entry] ∧
      answersWith toLowerCase (coveredStatus toLowerCase entries identity) entry = true := by
  obtain ⟨d, hkept, hanswer⟩ := met_status toLowerCase entries hmet
  rcases Nat.lt_or_ge Model.maxRequiredChecks (entries.countP isAttributable) with hlong | hshort
  · exfalso
    have hd : d ∈ ((attributed toLowerCase entries).take Model.maxRequiredChecks).filter
        (answersCheck toLowerCase identity) := by rw [hkept]; exact mem_singleton_self d
    obtain ⟨htaken, hanswers⟩ := mem_filter.mp hd
    rcases h.capped with hcap | hcap | hcap
    · omega
    · refine (undecided_iff toLowerCase entries identity).mpr hcap d (mem_of_mem_take htaken) hanswers ?_
      obtain ⟨rationale, hanswer⟩ := hanswer
      refine ⟨_, rationale, hanswer, ?_⟩
      rcases hmet with hmet | hmet <;> rw [hmet] <;> exact nofun
    · have hroom : Model.maxRequiredChecks ≤ (attributed toLowerCase entries).length :=
        length_attributed toLowerCase entries ▸ Nat.le_of_lt hlong
      have hbound := length_kept_le (p := answersCheck toLowerCase identity) hroom
      rw [hkept, length_singleton, length_attributed, length_filter_attributed] at hbound
      omega
  · rw [take_of_length_le (length_attributed toLowerCase entries ▸ hshort)] at hkept
    obtain ⟨entry, hentry, hitem⟩ := usable_singleton toLowerCase entries hkept
    obtain ⟨hanswers, hpositive⟩ := answersWith_of_met toLowerCase hitem hmet hanswer
    exact ⟨entry, h.alone hshort entry hentry hpositive, hanswers⟩

/-- Double answers are not laundered exactly when the answers of every check are unambiguous. -/
theorem notLaundered_iff : NotLaundered toLowerCase checks entries ↔
    ∀ check ∈ checks, checkIdentity toLowerCase check ≠ "" →
      Unambiguous toLowerCase entries (checkIdentity toLowerCase check) := by
  have hidentified : ∀ {check : String}, check ∈ identified toLowerCase checks ↔
      check ∈ checks ∧ checkIdentity toLowerCase check ≠ "" := by
    intro check
    rw [identified, mem_filter, bne_iff_ne]
  constructor
  · intro h check hcheck hne
    have hmem := hidentified.mpr ⟨hcheck, hne⟩
    have horder := (order_iff toLowerCase checks entries).mp h.order check hmem
    refine ⟨(coveredStatus_perm_iff toLowerCase entries _).mp horder, ?_⟩
    intro hshort entry hentry hpositive
    have hstatus := coveredStatus_of_alone toLowerCase entries hshort hentry hpositive
    have hrow : coveredRow toLowerCase checks entries check ∈ (coverageOf toLowerCase checks entries).checks := by
      rw [coverageOf_checks]
      exact mem_map_of_mem hmem
    obtain ⟨entry', hcarries, -⟩ := h.single _ hrow (by
      rw [isMet_iff, coveredRow_status toLowerCase checks entries hmem]
      exact hstatus)
    rw [coveredRow_identity toLowerCase checks entries hmem] at hcarries
    obtain ⟨hin, husable⟩ := mem_filter.mp (hentry ▸ mem_singleton_self entry :
      entry ∈ entries.filter (attributableTo toLowerCase (checkIdentity toLowerCase check)))
    have hentry' : entry ∈ entries.filter (carries toLowerCase (checkIdentity toLowerCase check)) :=
      mem_filter.mpr ⟨hin, (Bool.and_eq_true_iff.mp husable).2⟩
    rw [hcarries, mem_singleton] at hentry'
    rw [hcarries, hentry']
  · intro h
    refine ⟨fun row hrow hmet => ?_, complete_iff toLowerCase checks entries, ?_⟩
    · rw [coverageOf_checks] at hrow
      obtain ⟨check, hmem, rfl⟩ := mem_map.mp hrow
      obtain ⟨hcheck, hne⟩ := hidentified.mp hmem
      rw [isMet_iff, coveredRow_status toLowerCase checks entries hmem] at hmet
      rw [coveredRow_identity toLowerCase checks entries hmem, coveredRow_status toLowerCase checks entries hmem]
      exact single_of_unambiguous toLowerCase entries (h check hcheck hne) hmet
    · rw [order_iff]
      intro check hmem
      obtain ⟨hcheck, hne⟩ := hidentified.mp hmem
      exact (coveredStatus_perm_iff toLowerCase entries _).mpr (h check hcheck hne).capped

end Rows

/-! ## An answer behind the cap -/

def answerTo (check status : String) : Value :=
  .object [("check", .string check), ("status", .string status)]

/-- Two answers to the check `a`, with as many between them as the cap lets through. -/
def doubleAnswer : List Value :=
  answerTo "a" "satisfied" :: (List.replicate 49 (answerTo "b" "satisfied") ++ [answerTo "a" "unresolved"])

/-- The second answer to `a` is cut, and the first one passes for the only one. -/
theorem doubleAnswer_laundered : ¬ NotLaundered id ["a"] doubleAnswer := by
  intro h
  have hmem : "a" ∈ identified id ["a"] := by decide +kernel
  have horder := (order_iff id ["a"] doubleAnswer).mp h.order "a" hmem
  have husable : doubleAnswer.countP isAttributable = 51 := by
    rw [doubleAnswer, countP_cons, countP_append, countP_replicate]
    decide +kernel
  have hown : doubleAnswer.countP (attributableTo id "a") = 2 := by
    rw [doubleAnswer, countP_cons, countP_append, countP_replicate]
    decide +kernel
  have hidentity : checkIdentity id "a" = "a" := by decide +kernel
  rw [coveredStatus_perm_iff, husable, hidentity, hown] at horder
  rcases horder with hcap | hcap | hcap
  · exact absurd hcap (by decide)
  · have hfirst := hcap (answerTo "a" "satisfied") mem_cons_self (by decide +kernel)
    exact absurd hfirst (by decide +kernel)
  · exact absurd hcap (by decide)

end PrReviewer.Enforcement
