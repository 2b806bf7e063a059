import PrReviewer.Model.Verdict

/-!
# Coverage of the required checks

`src/enforcement/required-checks.ts`: the dispositions of the model are folded against the list of the
deterministic checks, keyed by the identity of a check.

- The answers of one check are all that its row depends on (`rowOf_evaluate`), and a row that gets a
  second answer is unresolved (`answered_status`).
- The serializer of the artifact is left out.
-/

open Js List

namespace PrReviewer.Enforcement

open Model (RequiredCheckStatus Stated NormalizedRequiredCheckDisposition)

/-! ## The evaluation -/

inductive CheckReason where
  | noStructuredDispositions
  | noDisposition
  | malformedDisposition
  | duplicateDispositions
  | ok
  deriving DecidableEq, Repr

def CheckReason.text : CheckReason → String
  | .noStructuredDispositions => "no-structured-dispositions"
  | .noDisposition => "no-disposition"
  | .malformedDisposition => "malformed-disposition"
  | .duplicateDispositions => "duplicate-dispositions"
  | .ok => "ok"

structure RequiredCheckRow where
  /-- The text of the check, at its first occurrence. -/
  check : String
  status : RequiredCheckStatus
  rationale : Option String
  reason : CheckReason

inductive CoverageStatus where
  | complete
  | incomplete
  | none
  deriving DecidableEq, Repr

structure RequiredCheckCoverage where
  version : Nat := 1
  structured : Bool
  status : CoverageStatus
  checks : List RequiredCheckRow
  droppedUnknown : List String

def maxDroppedUnknown : Nat := 50

/-- `checkIdentity`: `CHECK_CONTROL` is the class of `SMART_REVIEW_REASON_CONTROL`. -/
def checkIdentity (toLowerCase : String → String) (check : String) : String :=
  toLowerCase (Model.reasonLine check)

/-- A disposition whose check can be told: its status and rationale, none where it is malformed. -/
structure ValidatedDisposition where
  identity : String
  answer : Option (RequiredCheckStatus × Option String)

section

variable (toLowerCase : String → String)

/-- `validateDisposition`. The status of a normalised disposition is a word of the table, which the
validation trims, lowers and folds once more; the table has no word that this changes. -/
def validateDisposition (item : NormalizedRequiredCheckDisposition) : Option ValidatedDisposition :=
  let identity := checkIdentity toLowerCase item.check
  if identity == "" then none
  else
    match item.status with
    | .known status =>
      if (status = .notApplicable ∨ status = .unmet) ∧
          (item.rationale.map Model.reasonLine).getD "" = "" then some ⟨identity, none⟩
      else some ⟨identity, some (status, item.rationale)⟩
    -- an inherited member is no string, and `invalid` is no status
    | _ => some ⟨identity, none⟩

/-- The row of a check that nothing answered yet. -/
def openRow (structured : Bool) (check : String) : RequiredCheckRow :=
  ⟨check, .unresolved, none, if structured then .noDisposition else .noStructuredDispositions⟩

/-- The rows by identity, the first occurrence of each. -/
def openRows (structured : Bool) (checks : List String) : Map String RequiredCheckRow :=
  checks.foldl (fun rows check =>
    let identity := checkIdentity toLowerCase check
    if identity == "" || rows.has identity then rows
    else rows.set identity (openRow structured check)) .empty

/-- What an answer does to the row of its check. -/
def answered (row : RequiredCheckRow) (answer : Option (RequiredCheckStatus × Option String)) :
    RequiredCheckRow :=
  match answer with
  | none => { row with status := .unresolved, rationale := none, reason := .malformedDisposition }
  | some (status, rationale) =>
    if row.reason ≠ .noDisposition ∧ row.reason ≠ .noStructuredDispositions then
      -- a second answer for the check invalidates it
      { row with status := .unresolved, rationale := none, reason := .duplicateDispositions }
    else { row with status, rationale, reason := .ok }

/-- One turn of the loop over the dispositions. -/
def foldDisposition (state : Map String RequiredCheckRow × List String)
    (item : NormalizedRequiredCheckDisposition) : Map String RequiredCheckRow × List String :=
  match validateDisposition toLowerCase item with
  | none => state
  | some validated =>
    match state.1.get? validated.identity with
    | none =>
      (state.1,
        if state.2.length < maxDroppedUnknown then state.2 ++ [item.check] else state.2)
    | some row => (state.1.set validated.identity (answered row validated.answer), state.2)

def isClean (row : RequiredCheckRow) : Bool :=
  row.reason == .ok && (row.status == .satisfied || row.status == .notApplicable)

def evaluateRequiredCheckCoverage (checks : List String)
    (dispositions : Option (List NormalizedRequiredCheckDisposition)) : RequiredCheckCoverage :=
  if checks.length = 0 then
    { structured := dispositions.isSome, status := .none, checks := [], droppedUnknown := [] }
  else
    let (rows, droppedUnknown) := (dispositions.getD []).foldl (foldDisposition toLowerCase)
      (openRows toLowerCase dispositions.isSome checks, [])
    let checkRows := checks.filterMap fun check => rows.get? (checkIdentity toLowerCase check)
    { structured := dispositions.isSome
      status := if 0 < checkRows.length ∧ checkRows.all isClean = true then .complete else .incomplete
      checks := checkRows
      droppedUnknown }

/-! ## The row of one check -/

/-- The answers of a check, in their order. -/
def answersOf (identity : String) (dispositions : List NormalizedRequiredCheckDisposition) :
    List (Option (RequiredCheckStatus × Option String)) :=
  dispositions.filterMap fun item =>
    (validateDisposition toLowerCase item).bind fun validated =>
      if validated.identity = identity then some validated.answer else none

/-- The row of a check depends on its own answers only. -/
theorem get?_foldDisposition (identity : String)
    (dispositions : List NormalizedRequiredCheckDisposition)
    (state : Map String RequiredCheckRow × List String) :
    (dispositions.foldl (foldDisposition toLowerCase) state).1.get? identity
      = (state.1.get? identity).map fun row =>
          (answersOf toLowerCase identity dispositions).foldl answered row := by
  induction dispositions generalizing state with
  | nil => simp [answersOf]
  | cons item dispositions ih =>
    rw [foldl_cons, ih]
    unfold answersOf foldDisposition
    rw [filterMap_cons]
    cases hitem : validateDisposition toLowerCase item with
    | none => rfl
    | some validated =>
      dsimp only [Option.bind_some]
      by_cases hsame : validated.identity = identity
      · subst hsame
        rw [if_pos rfl]
        cases hrow : state.1.get? validated.identity with
        | none => simp [hrow]
        | some row => simp [Map.get?_set_self]
      · rw [if_neg hsame]
        cases hrow : state.1.get? validated.identity with
        | none => rfl
        | some row => simp [Map.get?_set_ne (Ne.symm hsame)]

/-- The checks that have an identity. -/
def identified (checks : List String) : List String :=
  checks.filter fun check => checkIdentity toLowerCase check != ""

theorem get?_openRows (structured : Bool) (checks : List String) (identity : String) :
    (openRows toLowerCase structured checks).get? identity
      = ((identified toLowerCase checks).find? (checkIdentity toLowerCase · == identity)).map
          (openRow structured) := by
  suffices h : ∀ rows : Map String RequiredCheckRow,
      (checks.foldl (fun rows check =>
        let identity := checkIdentity toLowerCase check
        if identity == "" || rows.has identity then rows
        else rows.set identity (openRow structured check)) rows).get? identity
      = (rows.get? identity).or
          (((identified toLowerCase checks).find? (checkIdentity toLowerCase · == identity)).map
            (openRow structured)) by
    exact (h .empty).trans (by simp)
  induction checks with
  | nil => intro rows; simp [identified]
  | cons check checks ih =>
    intro rows
    rw [foldl_cons, ih]
    unfold identified
    rw [filter_cons]
    dsimp only
    by_cases hblank : checkIdentity toLowerCase check = ""
    · simp [hblank]
    · have hfalse : (checkIdentity toLowerCase check == "") = false := by simpa using hblank
      have hkept : (checkIdentity toLowerCase check != "") = true := by simpa using hblank
      rw [if_pos hkept, List.find?_cons, hfalse, Bool.false_or]
      by_cases hsame : checkIdentity toLowerCase check = identity
      · rw [hsame, beq_self_eq_true]
        cases hrow : rows.get? identity <;> simp [Map.has, hrow]
      · have hother : (checkIdentity toLowerCase check == identity) = false := by simpa using hsame
        rw [hother]
        split
        · rfl
        · rw [Map.get?_set_ne (Ne.symm hsame)]

/-! ## The status of a row -/

/-- The status a list of answers leaves: the one answer when it is the only one. -/
def answeredStatus : List (Option (RequiredCheckStatus × Option String)) → RequiredCheckStatus
  | [some (status, _)] => status
  | _ => .unresolved

/-- A row that was answered. -/
def IsAnswered (row : RequiredCheckRow) : Prop :=
  row.reason ≠ .noDisposition ∧ row.reason ≠ .noStructuredDispositions

theorem isAnswered_answered (row : RequiredCheckRow)
    (answer : Option (RequiredCheckStatus × Option String)) : IsAnswered (answered row answer) := by
  unfold answered IsAnswered
  split
  · exact ⟨nofun, nofun⟩
  · split <;> exact ⟨nofun, nofun⟩

/-- A second answer leaves the row unresolved, for good. -/
theorem answered_again (row : RequiredCheckRow) (hrow : IsAnswered row)
    (answers : List (Option (RequiredCheckStatus × Option String))) (hne : answers ≠ []) :
    (answers.foldl answered row).status = .unresolved ∧
      (answers.foldl answered row).reason ≠ .ok := by
  induction answers generalizing row with
  | nil => exact absurd rfl hne
  | cons answer answers ih =>
    have hstep : (answered row answer).status = .unresolved ∧ (answered row answer).reason ≠ .ok := by
      unfold answered
      split
      · exact ⟨rfl, nofun⟩
      · unfold IsAnswered at hrow
        simp only [if_pos hrow]
        exact ⟨trivial, nofun⟩
    cases answers with
    | nil => exact hstep
    | cons next answers =>
      exact ih _ (isAnswered_answered row answer) (cons_ne_nil _ _)

/-- The row after its answers. -/
theorem foldl_answered (structured : Bool) (check : String)
    (answers : List (Option (RequiredCheckStatus × Option String))) :
    (answers.foldl answered (openRow structured check)).status = answeredStatus answers ∧
      ((answers.foldl answered (openRow structured check)).reason = .ok ↔
        ∃ answer, answers = [some answer]) := by
  have hopen : ¬((openRow structured check).reason ≠ .noDisposition ∧
      (openRow structured check).reason ≠ .noStructuredDispositions) := by
    cases structured <;> simp [openRow]
  cases answers with
  | nil => cases structured <;> simp [openRow, answeredStatus]
  | cons answer answers =>
    cases answers with
    | nil =>
      cases answer with
      | none => exact ⟨rfl, by simp [answered]⟩
      | some answer =>
        rw [foldl_cons, foldl_nil, answered, if_neg hopen]
        exact ⟨rfl, by simp⟩
    | cons next answers =>
      have hagain := answered_again (answered (openRow structured check) answer)
        (isAnswered_answered _ answer) (next :: answers) (cons_ne_nil _ _)
      rw [foldl_cons]
      refine ⟨?_, iff_of_false hagain.2 (by simp)⟩
      rw [hagain.1]
      cases answer <;> rfl

theorem filterMap_of_mem {α β : Type} {l : List α} {f : α → Option β} {g : α → β} {p : α → Bool}
    (h : ∀ a ∈ l, f a = if p a = true then some (g a) else none) : l.filterMap f = (l.filter p).map g := by
  induction l with
  | nil => rfl
  | cons a l ih =>
    rw [filterMap_cons, filter_cons, h a mem_cons_self,
      ih fun b hb => h b (mem_cons_of_mem a hb)]
    cases p a <;> simp

/-- The row of a check that has an identity. -/
def checkRow (checks : List String) (dispositions : Option (List NormalizedRequiredCheckDisposition))
    (check : String) : RequiredCheckRow :=
  let identity := checkIdentity toLowerCase check
  (answersOf toLowerCase identity (dispositions.getD [])).foldl answered
    (openRow dispositions.isSome
      (((identified toLowerCase checks).find? (checkIdentity toLowerCase · == identity)).getD check))

/-- The evaluation has one row for each check with an identity. -/
theorem evaluate_checks (checks : List String)
    (dispositions : Option (List NormalizedRequiredCheckDisposition)) :
    (evaluateRequiredCheckCoverage toLowerCase checks dispositions).checks
      = (identified toLowerCase checks).map (checkRow toLowerCase checks dispositions) := by
  unfold evaluateRequiredCheckCoverage
  split
  · rename_i hnil
    rw [length_eq_zero_iff.mp hnil]
    rfl
  · dsimp only
    simp only [get?_foldDisposition, get?_openRows]
    refine filterMap_of_mem fun check hcheck => ?_
    split
    · rename_i hkept
      have hfound : ((identified toLowerCase checks).find?
          (checkIdentity toLowerCase · == checkIdentity toLowerCase check)).isSome = true :=
        List.find?_isSome.mpr ⟨check, mem_filter.mpr ⟨hcheck, hkept⟩, by simp⟩
      obtain ⟨first, hfirst⟩ := Option.isSome_iff_exists.mp hfound
      simp [checkRow, hfirst]
    · rename_i hblank
      simp only [bne_iff_ne, ne_eq, Decidable.not_not] at hblank
      have hnone : (identified toLowerCase checks).find? (checkIdentity toLowerCase · == "") = none := by
        rw [List.find?_eq_none]
        intro other hother
        simpa using (mem_filter.mp hother).2
      rw [hblank, hnone]
      rfl

/-! ## The rows of the coverage -/

/-- A row that a disposition completes. -/
def isMet (row : RequiredCheckRow) : Bool := row.status == .satisfied || row.status == .notApplicable

theorem isMet_iff (row : RequiredCheckRow) :
    isMet row = true ↔ row.status = .satisfied ∨ row.status = .notApplicable := by
  rw [isMet, Bool.or_eq_true, beq_iff_eq, beq_iff_eq]

theorem foldl_answered_check (row : RequiredCheckRow)
    (answers : List (Option (RequiredCheckStatus × Option String))) :
    (answers.foldl answered row).check = row.check := by
  induction answers generalizing row with
  | nil => rfl
  | cons answer answers ih =>
    rw [foldl_cons, ih]
    unfold answered
    split
    · rfl
    · split <;> rfl

section Rows

variable (checks : List String) (dispositions : Option (List NormalizedRequiredCheckDisposition))

theorem checkRow_status (check : String) :
    (checkRow toLowerCase checks dispositions check).status
      = answeredStatus (answersOf toLowerCase (checkIdentity toLowerCase check) (dispositions.getD [])) :=
  (foldl_answered _ _ _).1

theorem checkRow_identity {check : String} (h : check ∈ identified toLowerCase checks) :
    checkIdentity toLowerCase (checkRow toLowerCase checks dispositions check).check
      = checkIdentity toLowerCase check := by
  have hfound : ((identified toLowerCase checks).find?
      (checkIdentity toLowerCase · == checkIdentity toLowerCase check)).isSome = true :=
    List.find?_isSome.mpr ⟨check, h, by simp⟩
  obtain ⟨first, hfirst⟩ := Option.isSome_iff_exists.mp hfound
  rw [checkRow, foldl_answered_check, openRow, hfirst]
  simpa using List.find?_some hfirst

/-- A row that is met is clean: its status is the one answer it got. -/
theorem isClean_checkRow (check : String) :
    isClean (checkRow toLowerCase checks dispositions check)
      = isMet (checkRow toLowerCase checks dispositions check) := by
  have hreason : (checkRow toLowerCase checks dispositions check).reason = .ok ↔
      ∃ answer, answersOf toLowerCase (checkIdentity toLowerCase check) (dispositions.getD [])
        = [some answer] :=
    (foldl_answered _ _ _).2
  unfold isClean
  change (_ && isMet _) = isMet _
  cases hmet : isMet (checkRow toLowerCase checks dispositions check) with
  | false => rw [Bool.and_false]
  | true =>
    rw [Bool.and_true, beq_iff_eq, hreason]
    rw [isMet, checkRow_status] at hmet
    match answersOf toLowerCase (checkIdentity toLowerCase check) (dispositions.getD []), hmet with
    | [some answer], _ => exact ⟨answer, rfl⟩

end Rows

end

/-! ## Answers of a capped list -/

section Capped

variable {δ : Type} (p : δ → Bool) (answer : δ → Option (RequiredCheckStatus × Option String))

/-- The status of the answers that are among the first `cap` entries. -/
def keptStatus (cap : Nat) (entries : List δ) : RequiredCheckStatus :=
  answeredStatus (((entries.take cap).filter p).map answer)

/-- An answer that settles a row when it is the only one. -/
def IsDecisive (entry : δ) : Prop := ∃ status rationale, answer entry = some (status, rationale) ∧
  status ≠ .unresolved

variable {p answer}

variable {answers : List (Option (RequiredCheckStatus × Option String))} {cap : Nat}
  {entries : List δ} {entry : δ} {status : RequiredCheckStatus} {rationale : Option String}

theorem answeredStatus_of_two
    (h : 2 ≤ answers.length) : answeredStatus answers = .unresolved := by
  match answers, h with
  | none :: _ :: _, _ => rfl
  | some _ :: _ :: _, _ => rfl

theorem keptStatus_ne (h : keptStatus p answer cap entries ≠ .unresolved) :
    ∃ entry, (entries.take cap).filter p = [entry] ∧
      ∃ rationale, answer entry = some (keptStatus p answer cap entries, rationale) := by
  unfold keptStatus at h ⊢
  match hkept : (entries.take cap).filter p with
  | [] => rw [hkept] at h; exact absurd rfl h
  | [entry] =>
    rw [hkept] at h
    refine ⟨entry, rfl, ?_⟩
    cases hanswer : answer entry with
    | none => simp [hanswer, answeredStatus] at h
    | some settled => exact ⟨settled.2, by simp [hanswer, answeredStatus]⟩
  | first :: second :: rest =>
    rw [hkept] at h
    exact absurd (answeredStatus_of_two (by simp)) h

theorem keptStatus_single
    (hkept : (entries.take cap).filter p = [entry])
    (hanswer : answer entry = some (status, rationale)) : keptStatus p answer cap entries = status := by
  rw [keptStatus, hkept, map_singleton, hanswer]
  rfl

theorem answeredStatus_of_ne
    (h : answers.length ≠ 1) : answeredStatus answers = .unresolved := by
  match answers, h with
  | [], _ => rfl
  | _ :: _ :: _, _ => exact answeredStatus_of_two (by simp)

theorem answeredStatus_perm {answers' : List (Option (RequiredCheckStatus × Option String))}
    (h : answers.Perm answers') : answeredStatus answers = answeredStatus answers' := by
  by_cases hone : answers.length = 1
  · obtain ⟨answer, rfl⟩ := length_eq_one_iff.mp hone
    rw [singleton_perm.mp h]
  · rw [answeredStatus_of_ne hone, answeredStatus_of_ne (h.length_eq ▸ hone)]

/-- What the cap leaves of the entries that fail `p` is at most all of them. -/
theorem length_kept_le (h : cap ≤ entries.length) :
    cap + (entries.filter p).length ≤ ((entries.take cap).filter p).length + entries.length := by
  have htake := (entries.take cap).length_eq_length_filter_add p
  have hall := entries.length_eq_length_filter_add p
  have hrest := ((take_sublist cap entries).filter fun entry => !p entry).length_le
  rw [length_take, Nat.min_eq_left h] at htake
  omega

theorem length_kept_first (own others : List δ) (h : ∀ entry ∈ own, p entry = true) :
    min cap own.length ≤ (((own ++ others).take cap).filter p).length := by
  rw [take_append, filter_append, length_append,
    filter_eq_self.mpr fun entry hentry => h entry (mem_of_mem_take hentry), length_take]
  omega

/-- The decisive answer in front of all the others of its check, which the cap cuts. -/
theorem keptStatus_front {others rest : List δ}
    (hp : p entry = true) (hothers : ∀ other ∈ others, p other = false)
    (hroom : cap ≤ others.length + 1) (hcap : 2 ≤ cap) (hanswer : answer entry = some (status, rationale)) :
    keptStatus p answer cap (entry :: (others ++ rest)) = status := by
  obtain ⟨room, rfl⟩ : ∃ room, cap = room + 1 := ⟨cap - 1, by omega⟩
  refine keptStatus_single ?_ hanswer
  rw [take_succ_cons, take_append_of_le_length (by omega), filter_cons_of_pos hp,
    filter_eq_nil_iff.mpr]
  intro other hother
  simp [hothers other (mem_of_mem_take hother)]

/-- The status of a check is the same in every order exactly when the cap cuts nothing, or no answer of the
check settles it, or two of its answers are always among the first `cap`. -/
theorem keptStatus_perm_iff (hcap : 2 ≤ cap) (entries : List δ) :
    (∀ entries', entries'.Perm entries →
        keptStatus p answer cap entries' = keptStatus p answer cap entries) ↔
      entries.length ≤ cap ∨ (∀ entry ∈ entries, p entry = true → ¬IsDecisive answer entry) ∨
        entries.length + 1 < cap + (entries.filter p).length := by
  constructor
  · intro hsame
    by_contra hnone
    simp only [not_or, not_forall, not_not, not_le, not_lt] at hnone
    obtain ⟨hlong, ⟨entry, hentry, hp, status, rationale, hanswer, hdecisive⟩, hroom⟩ := hnone
    have hsplit := filter_append_perm p entries
    have hlength := entries.length_eq_length_filter_add p
    obtain ⟨before, after, hown⟩ := append_of_mem (mem_filter.mpr ⟨hentry, hp⟩)
    have hothers : ∀ other ∈ entries.filter fun entry => !p entry, p other = false := by
      intro other hother
      simpa using (mem_filter.mp hother).2
    have hfront : keptStatus p answer cap entries = status := by
      rw [← hsame (entry :: ((entries.filter fun entry => !p entry) ++ (before ++ after))) ?_]
      · exact keptStatus_front hp hothers (by omega) hcap hanswer
      · refine List.Perm.trans ?_ hsplit
        rw [hown]
        refine List.Perm.trans ?_ (perm_middle.symm.append_right _)
        exact List.Perm.cons _ perm_append_comm
    have hback : keptStatus p answer cap entries = .unresolved := by
      by_cases hone : (entries.filter p).length = 1
      · rw [← hsame _ (perm_append_comm.trans hsplit), keptStatus,
          take_append_of_le_length (by omega), filter_eq_nil_iff.mpr]
        · rfl
        · intro other hother
          simp [hothers other (mem_of_mem_take hother)]
      · rw [← hsame _ hsplit]
        refine answeredStatus_of_two ?_
        have hpos : 0 < (entries.filter p).length := by
          rw [hown, length_append, length_cons]
          omega
        have hfirst : min cap (entries.filter p).length ≤ _ := length_kept_first (entries.filter p)
          (entries.filter fun entry => !p entry) fun entry hentry => (mem_filter.mp hentry).2
        rw [length_map]
        omega
    exact hdecisive (hfront.symm.trans hback)
  · intro h entries' hperm
    rcases Nat.lt_or_ge cap entries.length with hlong | hshort
    · have hunresolved : ∀ list : List δ, list.Perm entries → keptStatus p answer cap list = .unresolved := by
        intro list hlist
        by_contra hne
        obtain ⟨entry, hkept, rationale, hanswer⟩ := keptStatus_ne hne
        have hmem : entry ∈ (list.take cap).filter p := by rw [hkept]; exact mem_singleton_self entry
        obtain ⟨htaken, hp⟩ := mem_filter.mp hmem
        rcases h with h | h | h
        · omega
        · exact h entry (hlist.mem_iff.mp (mem_of_mem_take htaken)) hp ⟨_, rationale, hanswer, hne⟩
        · have hbound := length_kept_le (p := p) (hlist.length_eq ▸ Nat.le_of_lt hlong)
          rw [hkept, hlist.length_eq, (hlist.filter p).length_eq, length_singleton] at hbound
          omega
      rw [hunresolved _ hperm, hunresolved _ (.refl _)]
    · unfold keptStatus
      rw [take_of_length_le hshort, take_of_length_le (hperm.length_eq ▸ hshort)]
      exact answeredStatus_perm ((hperm.filter p).map answer)

end Capped

end PrReviewer.Enforcement
