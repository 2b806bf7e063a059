import PrReviewer.Js.Lines
import PrReviewer.Enforcement.Derived

/-!
# Derived obligations close on evidence

- **Coverage**: it is complete exactly for a clean record (`coverage_complete_iff`). Every entry of the record has a
  row exactly when all of them are usable and none is behind the cap (`hasRows_iff`).
- **The fold** satisfies a derived row on one or two answers that all say so (`satisfied_iff`). Only the longest
  rationale is read: a shorter one that says that the obligation fails goes unseen (`Masked`).
-/

open Js List

namespace PrReviewer.Enforcement

variable {toLowerCase : String → String}

/-! ## Matching -/

/-- `text` names `token` with no word character on either side. -/
def Mentions (text token : String) : Prop :=
  token ≠ "" ∧ ∃ before after, text.toList = before ++ token.toList ++ after ∧
    before.getLast?.any RegExp.isWord = false ∧ after.head?.any RegExp.isWord = false

theorem mem_occurrences {token : List Char} (hne : token ≠ []) {place : List Char × List Char} :
    ∀ {before text : List Char}, place ∈ occurrences token before text →
      place.1.reverse ++ token ++ place.2 = before.reverse ++ text := by
  intro before text
  induction text generalizing before with
  | nil =>
    intro h
    rw [occurrences, if_neg (by simpa using hne)] at h
    cases h
  | cons c cs ih =>
    intro h
    rw [occurrences, mem_append] at h
    rcases h with h | h
    · split at h
      · next htoken =>
        obtain ⟨rest, hrest⟩ := isPrefixOf_iff_prefix.mp htoken
        rw [mem_singleton.mp h, ← hrest]
        simp
      · cases h
    · rw [ih h]
      simp

variable {text : String} {room : Nat} {entries : List Value} {value record : Value}

theorem mentions_of_mentionsToken {token : String} (h : mentionsToken text token = true) :
    Mentions text token := by
  rw [mentionsToken, Bool.and_eq_true, bne_iff_ne, any_eq_true] at h
  obtain ⟨hne, place, hplace, hbounded⟩ := h
  rw [isBounded, Bool.and_eq_true] at hbounded
  refine ⟨hne, place.1.reverse, place.2, ?_, ?_, by simpa using hbounded.2⟩
  · have htoken : token.toList ≠ [] := by simpa using hne
    simpa using (mem_occurrences htoken hplace).symm
  · simpa using hbounded.1

/-- The text names the file: its path, or its base name where that is not generic. -/
def NamesFile (toLowerCase : String → String) (text path : String) : Prop :=
  Mentions text path ∨
    (fileStem toLowerCase (basename path) ∉ genericBasenames ∧ Mentions text (basename path))

theorem namesFile_of_namesPath {path : String} (h : namesPath toLowerCase text path = true) :
    NamesFile toLowerCase text path := by
  rw [namesPath, Bool.or_eq_true] at h
  rcases h with h | h
  · exact .inl (mentions_of_mentionsToken h)
  · simp only [Bool.and_eq_true, Bool.not_eq_true'] at h
    exact .inr ⟨by simpa using h.1.2, mentions_of_mentionsToken h.2⟩

/-- The text names the location: the path, and the symbol behind its last colon if it has one. -/
def NamesAnchor (toLowerCase : String → String) (text anchor : String) : Prop :=
  (':' ∉ anchor.toList ∧ NamesFile toLowerCase text anchor) ∨
    ∃ path symbol : String, anchor.toList = path.toList ++ ':' :: symbol.toList ∧
      ':' ∉ symbol.toList ∧ Mentions text symbol ∧ NamesFile toLowerCase text path

theorem namesAnchor_of_covered {anchor : String}
    (h : anchorCoveredBy toLowerCase text anchor = true) :
    NamesAnchor toLowerCase (trim text) (trim anchor) := by
  unfold anchorCoveredBy at h
  dsimp only at h
  split at h
  · cases h
  · by_cases hcolon : ':' ∈ (trim anchor).toList
    · obtain ⟨path, symbol, hanchor, hsymbol, hcut⟩ := exists_cutAtLast hcolon
      simp only [hcut, Bool.and_eq_true] at h
      exact .inr ⟨String.ofList path, String.ofList symbol, by simpa using hanchor, by simpa using hsymbol,
        mentions_of_mentionsToken h.1.2, namesFile_of_namesPath h.2⟩
    · simp only [cutAtLast_of_not_mem hcolon] at h
      exact .inl ⟨hcolon, namesFile_of_namesPath h⟩

/-! ## Rows -/

theorem derivedObligationId_injective : Function.Injective derivedObligationId := by
  intro i j h
  have hdigits : toString (i + 1) = toString (j + 1) := by
    simpa [derivedObligationId, ← String.toList_inj] using h
  have hvalue := congrArg (fun s : String => Nat.ofDigitChars 10 s.toList 0) hdigits
  simpa using hvalue

/-- A row is the row of a usable entry. -/
theorem exists_of_mem_rowsFrom {row : DerivedObligationRow} :
    ∀ {room index : Nat} {entries : List Value}, row ∈ rowsFrom toLowerCase room index entries →
      ∃ (i : Nat) (hi : i < entries.length),
        row = rowOf toLowerCase (index + i) entries[i] ∧ isUsable entries[i] = true := by
  intro room index entries
  induction entries generalizing room index with
  | nil => intro h; cases room <;> cases h
  | cons entry entries ih =>
    intro h
    have later : ∀ {room}, row ∈ rowsFrom toLowerCase room (index + 1) entries →
        ∃ (i : Nat) (hi : i < (entry :: entries).length),
          row = rowOf toLowerCase (index + i) (entry :: entries)[i] ∧
            isUsable (entry :: entries)[i] = true := by
      intro room hmem
      obtain ⟨i, hi, hrow, husable⟩ := ih hmem
      exact ⟨i + 1, by simpa using hi, by simpa [Nat.add_right_comm, Nat.add_assoc] using hrow, husable⟩
    cases room with
    | zero => cases h
    | succ room =>
      rw [rowsFrom] at h
      split at h
      · next husable =>
        rcases mem_cons.mp h with rfl | h
        · exact ⟨0, by simp, rfl, husable⟩
        · exact later h
      · exact later h

theorem length_rowsFrom_le (room index : Nat) (entries : List Value) :
    (rowsFrom toLowerCase room index entries).length ≤ room := by
  induction entries generalizing room index with
  | nil => cases room <;> simp [rowsFrom]
  | cons entry entries ih =>
    cases room with
    | zero => simp [rowsFrom]
    | succ room =>
      rw [rowsFrom]
      split
      · simpa using ih room (index + 1)
      · exact ih (room + 1) (index + 1)

/-- Usable entries that fit have their rows. -/
theorem rowOf_mem_rowsFrom {index i : Nat}
    (husable : ∀ entry ∈ entries, isUsable entry = true) (hroom : entries.length ≤ room)
    (hi : i < entries.length) :
    rowOf toLowerCase (index + i) entries[i] ∈ rowsFrom toLowerCase room index entries := by
  induction entries generalizing room index i with
  | nil => cases hi
  | cons entry entries ih =>
    cases room with
    | zero => cases hroom
    | succ room =>
      rw [rowsFrom, if_pos (husable _ mem_cons_self)]
      cases i with
      | zero => exact mem_cons_self
      | succ i =>
        have hmem := @ih room (index + 1) i (fun e he => husable e (mem_cons_of_mem _ he))
          (Nat.le_of_succ_le_succ hroom) (Nat.lt_of_succ_lt_succ hi)
        rw [Nat.add_assoc, Nat.add_comm 1 i] at hmem
        exact mem_cons_of_mem _ hmem

/-- Every entry has a row under its own id. -/
def HasRows (rows : List DerivedObligationRow) (entries : List Value) : Prop :=
  ∀ i < entries.length, derivedObligationId i ∈ rows.map (·.id)

/-- Every entry has a row exactly when all of them are usable and fit. -/
theorem hasRows_iff :
    HasRows (rowsFrom toLowerCase room 0 entries) entries ↔
      (∀ entry ∈ entries, isUsable entry = true) ∧ entries.length ≤ room := by
  constructor
  · intro h
    constructor
    · intro entry hentry
      obtain ⟨i, hi, rfl⟩ := mem_iff_getElem.mp hentry
      obtain ⟨row, hrow, hid⟩ := mem_map.mp (h i hi)
      obtain ⟨j, hj, rfl, husable⟩ := exists_of_mem_rowsFrom hrow
      obtain rfl : 0 + j = i := derivedObligationId_injective hid
      simpa using husable
    · have hnodup : ((List.range entries.length).map derivedObligationId).Nodup :=
        (nodup_range).map derivedObligationId_injective
      have hsubset : (List.range entries.length).map derivedObligationId ⊆
          (rowsFrom toLowerCase room 0 entries).map (·.id) := by
        intro id hid
        obtain ⟨i, hi, rfl⟩ := mem_map.mp hid
        exact h i (mem_range.mp hi)
      have hlength := (subperm_of_subset hnodup hsubset).length_le
      simp only [length_map, length_range] at hlength
      exact hlength.trans (length_rowsFrom_le room 0 entries)
  · rintro ⟨husable, hroom⟩ i hi
    exact mem_map.mpr ⟨_, rowOf_mem_rowsFrom husable hroom hi, by simp [rowOf]⟩

/-! ## Coverage -/

/-- The entries of `obligations`. -/
def entriesOf (record : Value) : List Value :=
  match record.get "obligations" with
  | .array entries => entries
  | _ => []

/-- A record that says of itself that nothing is missing. -/
structure IsClean (toLowerCase : String → String) (record : Value) : Prop where
  isRecord : isRecord record = true
  status : ∃ s, record.get "status" = .string s ∧ toLowerCase (trim s) ∈ ["ok", "empty"]
  inputComplete : record.get "input_complete" = .bool true
  truncated : record.get "truncated" ≠ .bool true
  errors : record.get "errors" = .array []

theorem isTrue_iff : isTrue value = true ↔ value = .bool true := by
  cases value <;> simp [isTrue]

theorem isEmptyArray_iff : isEmptyArray value = true ↔ value = .array [] := by
  unfold isEmptyArray
  split <;> simp_all

theorem statusToken_mem_iff :
    statusToken toLowerCase value ∈ ["ok", "empty"] ↔
      ∃ s, value = .string s ∧ toLowerCase (trim s) ∈ ["ok", "empty"] := by
  have hunknown : "unknown" ∉ ["ok", "empty"] := by decide
  cases value with
  | string s =>
    rw [statusToken]
    split
    · simp
    · next htoken =>
      simp only [hunknown, false_iff, Value.string.injEq, exists_eq_left']
      intro hmem
      rcases mem_pair.mp hmem with h | h <;> rw [h] at htoken <;> exact htoken (by decide)
  | _ => simp [statusToken]

theorem coverage_complete_iff :
    (resolveDerivedObligations toLowerCase record true).coverage = .complete ↔
      IsClean toLowerCase record := by
  have hkey : IsClean toLowerCase record ↔ isRecord record = true ∧
      statusToken toLowerCase (record.get "status") ∈ ["ok", "empty"] ∧
      isTrue (record.get "input_complete") = true ∧ ¬isTrue (record.get "truncated") = true ∧
      isEmptyArray (record.get "errors") = true := by
    rw [isTrue_iff, isTrue_iff, isEmptyArray_iff, statusToken_mem_iff]
    exact ⟨fun h => ⟨h.1, h.2, h.3, h.4, h.5⟩, fun ⟨h1, h2, h3, h4, h5⟩ => ⟨h1, h2, h3, h4, h5⟩⟩
  rw [hkey, resolveDerivedObligations, if_neg (by simp)]
  by_cases hrecord : isRecord record = true
  · rw [if_neg (by simpa using hrecord)]
    dsimp only
    by_cases hstatus : statusToken toLowerCase (record.get "status") ∈ ["ok", "empty"]
    · rw [if_neg (by simpa [Classical.or_iff_not_imp_left] using hstatus)]
      cases hinput : isTrue (record.get "input_complete")
      · simp [incomplete]
      · cases htruncated : isTrue (record.get "truncated")
        · cases herrors : isEmptyArray (record.get "errors")
          · simp [incomplete]
          · simp [hrecord, hstatus]
        · simp [incomplete]
    · rw [if_pos (by simpa using hstatus)]
      simp [incomplete, hstatus]
  · rw [if_pos (by simpa using hrecord)]
    simp [incomplete, hrecord]

theorem coverage_ne_complete
    (h : (resolveDerivedObligations toLowerCase record true).coverage ≠ .complete) :
    (resolveDerivedObligations toLowerCase record true).coverage = .incomplete := by
  cases hcoverage : (resolveDerivedObligations toLowerCase record true).coverage with
  | complete => exact absurd hcoverage h
  | incomplete => rfl
  | disabled =>
    rw [resolveDerivedObligations, if_neg (by simp)] at hcoverage
    dsimp only at hcoverage
    split_ifs at hcoverage <;> cases hcoverage

/-- The rows of a record that is one are those of its entries. -/
theorem rows_eq (h : isRecord record = true) :
    (resolveDerivedObligations toLowerCase record true).rows =
      rowsFrom toLowerCase maxDerivedObligations 0 (entriesOf record) := by
  have hrows : obligationRows toLowerCase (record.get "obligations") =
      rowsFrom toLowerCase maxDerivedObligations 0 (entriesOf record) := by
    unfold obligationRows entriesOf
    cases record.get "obligations" <;> rfl
  rw [resolveDerivedObligations, if_neg (by simp), if_neg (by simpa using h), hrows]
  dsimp only
  split_ifs <;> rfl

/-! ## The fold -/

section Fold

variable {obligation : ObligationRow} {dispositions : List Disposition}

theorem pool_derived (h : obligation.source = .derived) :
    pool toLowerCase obligation dispositions = dispositions.filter fun d =>
      normalized toLowerCase d.check == normalized toLowerCase obligation.text ||
        normalized toLowerCase d.check == normalized toLowerCase obligation.id := by
  simp only [pool, h]

theorem filter_pool_id (h : obligation.source = .derived) :
    (pool toLowerCase obligation dispositions).filter (fun d =>
      normalized toLowerCase d.check == normalized toLowerCase obligation.id) =
        idMatches toLowerCase obligation dispositions := by
  rw [pool_derived h, filter_filter, idMatches]
  exact filter_congr fun d _ => by simpa using Or.inr

theorem filter_pool_text (h : obligation.source = .derived) :
    (pool toLowerCase obligation dispositions).filter (fun d =>
      normalized toLowerCase d.check == normalized toLowerCase obligation.text) =
        textMatches toLowerCase obligation dispositions := by
  rw [pool_derived h, filter_filter, textMatches]
  exact filter_congr fun d _ => by simpa using Or.inl

theorem length_filter_or_le {α : Type} (p q : α → Bool) (xs : List α) :
    (xs.filter fun x => p x || q x).length ≤ (xs.filter q).length + (xs.filter p).length := by
  induction xs with
  | nil => simp
  | cons x xs ih =>
    cases hp : p x <;> cases hq : q x <;> simp [hp, hq] <;> omega

/-- One answer under each alias at most: two answers at most. -/
theorem length_pool_le (h : obligation.source = .derived)
    (hid : (idMatches toLowerCase obligation dispositions).length ≤ 1)
    (htext : (textMatches toLowerCase obligation dispositions).length ≤ 1) :
    (pool toLowerCase obligation dispositions).length ≤ 2 := by
  have hsum := length_filter_or_le
    (fun d : Disposition => normalized toLowerCase d.check == normalized toLowerCase obligation.text)
    (fun d => normalized toLowerCase d.check == normalized toLowerCase obligation.id) dispositions
  rw [pool_derived h]
  rw [idMatches] at hid
  rw [textMatches] at htext
  omega

/-- What the fold asks of a derived row before it closes it. -/
structure Closes (toLowerCase : String → String) (obligation : ObligationRow)
    (dispositions : List Disposition) : Prop where
  answered : pool toLowerCase obligation dispositions ≠ []
  idOnce : (idMatches toLowerCase obligation dispositions).length ≤ 1
  textOnce : (textMatches toLowerCase obligation dispositions).length ≤ 1
  agree : ∀ d ∈ pool toLowerCase obligation dispositions, d.status = "satisfied"
  cause : obligation.cause ≠ some .derivationIncomplete
  nonempty : longest ((pool toLowerCase obligation dispositions).map Disposition.text) ≠ ""
  silent : rationaleAssertsFailure toLowerCase
    (longest ((pool toLowerCase obligation dispositions).map Disposition.text)) = false
  grounded : isGrounded toLowerCase obligation
    (longest ((pool toLowerCase obligation dispositions).map Disposition.text)) = true

theorem foldedStatus_satisfied_iff (h : obligation.source = .derived) :
    foldedStatus toLowerCase obligation dispositions = .satisfied ↔
      Closes toLowerCase obligation dispositions := by
  rw [foldedStatus]
  dsimp only
  rw [filter_pool_id h, filter_pool_text h]
  split
  · next hnil =>
    constructor
    · intro hstatus
      cases hstatus
    · intro hcloses
      exact absurd hnil hcloses.answered
  · next first rest hpool =>
    constructor
    · intro hstatus
      split_ifs at hstatus with honce hdiffer hcause hunmet hrationale hcloses
      rw [not_or, Nat.not_lt, Nat.not_lt] at honce
      refine ⟨by simp [hpool], honce.1, honce.2, ?_, fun hc => hcause ⟨h, hc⟩, hcloses.2.1, hcloses.2.2.1,
        hcloses.2.2.2⟩
      intro d hd
      rw [← hcloses.1]
      exact Classical.not_not.mp fun hne => hdiffer (any_eq_true.mpr ⟨d, hd, bne_iff_ne.mpr hne⟩)
    · intro hcloses
      have hfirst : first.status = "satisfied" := hcloses.agree first (by simp [hpool])
      have hagree : ¬((pool toLowerCase obligation dispositions).any (·.status != first.status)) = true := by
        simp only [any_eq_true, bne_iff_ne, not_exists, not_and, not_not, hfirst]
        exact hcloses.agree
      rw [if_neg (not_or.mpr ⟨Nat.not_lt.mpr hcloses.idOnce, Nat.not_lt.mpr hcloses.textOnce⟩),
        if_neg hagree, if_neg (fun hc => hcloses.cause hc.2), if_neg (by rw [hfirst]; decide), if_pos h,
        if_pos ⟨hfirst, hcloses.nonempty, hcloses.silent, hcloses.grounded⟩]

/-- The disposition answers the row, by its text or by its id. -/
def Answers (toLowerCase : String → String) (obligation : ObligationRow) (d : Disposition) : Prop :=
  normalized toLowerCase d.check = normalized toLowerCase obligation.text ∨
    normalized toLowerCase d.check = normalized toLowerCase obligation.id

theorem mem_pool_iff (h : obligation.source = .derived) {d : Disposition} :
    d ∈ pool toLowerCase obligation dispositions ↔
      d ∈ dispositions ∧ Answers toLowerCase obligation d := by
  rw [pool_derived h, mem_filter, Answers]
  simp

/-- The rationale names a location of the row; where the row has none, any path. -/
def NamesLocation (toLowerCase : String → String) (obligation : ObligationRow) (text : String) : Prop :=
  if obligation.anchors.getD [] = [] then namesPathLikeToken toLowerCase text = true
  else ∃ anchor ∈ obligation.anchors.getD [], NamesAnchor toLowerCase text (trim anchor)

theorem trim_text (d : Disposition) : trim d.text = d.text := by
  rw [Disposition.text]
  cases d.rationale with
  | none => decide
  | some rationale => exact trim_trim rationale

theorem namesLocation_of_isGrounded {d : Disposition}
    (h : isGrounded toLowerCase obligation d.text = true) :
    NamesLocation toLowerCase obligation d.text := by
  unfold isGrounded at h
  unfold NamesLocation
  split at h
  · next hnone => rwa [if_pos hnone]
  · next anchor anchors hanchors =>
    rw [if_neg (by simp [hanchors]), hanchors]
    obtain ⟨a, ha, hcovered⟩ := any_eq_true.mp h
    have hnames := namesAnchor_of_covered hcovered
    rw [trim_text] at hnames
    exact ⟨a, ha, hnames⟩

/-- The answers to the row are evidence that it holds. -/
structure OnEvidence (toLowerCase : String → String) (obligation : ObligationRow)
    (dispositions : List Disposition) : Prop where
  agree : ∀ d ∈ dispositions, Answers toLowerCase obligation d → d.status = "satisfied"
  idOnce : (idMatches toLowerCase obligation dispositions).length ≤ 1
  textOnce : (textMatches toLowerCase obligation dispositions).length ≤ 1
  silent : ∀ d ∈ dispositions, Answers toLowerCase obligation d →
    rationaleAssertsFailure toLowerCase d.text = false
  located : ∃ d ∈ dispositions, Answers toLowerCase obligation d ∧
    NamesLocation toLowerCase obligation d.text

/-- The first rationale closes the row, and the other one says that the obligation fails. -/
structure Hides (toLowerCase : String → String) (obligation : ObligationRow) (read unread : Disposition) :
    Prop where
  nonempty : read.text ≠ ""
  silent : rationaleAssertsFailure toLowerCase read.text = false
  grounded : isGrounded toLowerCase obligation read.text = true
  asserts : rationaleAssertsFailure toLowerCase unread.text = true

/-- The row has two answers, one under each alias, and only the longer one is read. -/
def Masked (toLowerCase : String → String) (obligation : ObligationRow)
    (dispositions : List Disposition) : Prop :=
  obligation.cause ≠ some .derivationIncomplete ∧
    (idMatches toLowerCase obligation dispositions).length ≤ 1 ∧
    (textMatches toLowerCase obligation dispositions).length ≤ 1 ∧
    ∃ first second, pool toLowerCase obligation dispositions = [first, second] ∧
      first.status = "satisfied" ∧ second.status = "satisfied" ∧
      if strLength first.text < strLength second.text then Hides toLowerCase obligation second first
      else Hides toLowerCase obligation first second

/-- The rationale that is read of two. -/
theorem longest_pair (r r' : String) :
    longest [r, r'] = if strLength r < strLength r' then r' else r := rfl

theorem closes_of_masked (h : Masked toLowerCase obligation dispositions) :
    Closes toLowerCase obligation dispositions ∧
      ∃ d ∈ pool toLowerCase obligation dispositions, rationaleAssertsFailure toLowerCase d.text = true := by
  obtain ⟨hcause, hid, htext, first, second, hpool, hfirst, hsecond, hhides⟩ := h
  have hagree : ∀ d ∈ pool toLowerCase obligation dispositions, d.status = "satisfied" := by
    rw [hpool]
    simp [hfirst, hsecond]
  have hlongest : longest ((pool toLowerCase obligation dispositions).map Disposition.text) =
      if strLength first.text < strLength second.text then second.text else first.text := by
    rw [hpool]
    rfl
  have hcloses : ∀ {read unread}, Hides toLowerCase obligation read unread →
      longest ((pool toLowerCase obligation dispositions).map Disposition.text) = read.text →
      Closes toLowerCase obligation dispositions := by
    intro read unread hhides hread
    refine ⟨by simp [hpool], hid, htext, hagree, hcause, ?_, ?_, ?_⟩ <;> rw [hread]
    · exact hhides.nonempty
    · exact hhides.silent
    · exact hhides.grounded
  split at hhides
  · next hlt => exact ⟨hcloses hhides (by rw [hlongest, if_pos hlt]), first, by simp [hpool], hhides.asserts⟩
  · next hlt => exact ⟨hcloses hhides (by rw [hlongest, if_neg hlt]), second, by simp [hpool], hhides.asserts⟩

/-- The rationale that is read is that of an answer. -/
theorem exists_longest (hne : pool toLowerCase obligation dispositions ≠ [])
    (hlength : (pool toLowerCase obligation dispositions).length ≤ 2) :
    ∃ d ∈ pool toLowerCase obligation dispositions,
      longest ((pool toLowerCase obligation dispositions).map Disposition.text) = d.text := by
  match hpool : pool toLowerCase obligation dispositions, hne, hlength with
  | [first], _, _ => exact ⟨first, by simp, rfl⟩
  | [first, second], _, _ =>
    rw [map_cons, map_cons, map_nil, longest_pair]
    split
    · exact ⟨second, by simp, rfl⟩
    · exact ⟨first, by simp, rfl⟩

/-- A row that the fold closes is closed on evidence, unless an answer is masked. -/
theorem onEvidence_of_closes (hsource : obligation.source = .derived)
    (h : Closes toLowerCase obligation dispositions)
    (hmasked : ¬Masked toLowerCase obligation dispositions) :
    OnEvidence toLowerCase obligation dispositions := by
  have hlength := length_pool_le hsource h.idOnce h.textOnce
  have hsilent : ∀ d ∈ pool toLowerCase obligation dispositions,
      rationaleAssertsFailure toLowerCase d.text = false := by
    have hread := h.silent
    match hpool : pool toLowerCase obligation dispositions, h.answered, hlength with
    | [first], _, _ =>
      rw [hpool] at hread
      simpa [longest] using hread
    | [first, second], _, _ =>
      by_contra hexists
      refine hmasked ⟨h.cause, h.idOnce, h.textOnce, first, second, hpool,
        h.agree _ (by simp [hpool]), h.agree _ (by simp [hpool]), ?_⟩
      have hnonempty := h.nonempty
      have hgrounded := h.grounded
      rw [hpool, map_cons, map_cons, map_nil, longest_pair] at hread hnonempty hgrounded
      split
      · next hlt =>
        rw [if_pos hlt] at hread hnonempty hgrounded
        exact ⟨hnonempty, hread, hgrounded, by simpa [hread] using hexists⟩
      · next hlt =>
        rw [if_neg hlt] at hread hnonempty hgrounded
        exact ⟨hnonempty, hread, hgrounded, by simpa [hread] using hexists⟩
  obtain ⟨d, hd, hlongest⟩ := exists_longest h.answered hlength
  have hlocated : NamesLocation toLowerCase obligation d.text :=
    namesLocation_of_isGrounded (by rw [← hlongest]; exact h.grounded)
  exact {
    agree := fun d hd hanswers => h.agree d ((mem_pool_iff hsource).mpr ⟨hd, hanswers⟩)
    idOnce := h.idOnce
    textOnce := h.textOnce
    silent := fun d hd hanswers => hsilent d ((mem_pool_iff hsource).mpr ⟨hd, hanswers⟩)
    located := ⟨d, ((mem_pool_iff hsource).mp hd).1, ((mem_pool_iff hsource).mp hd).2, hlocated⟩ }

/-- The fold closes a row on evidence only, unless an answer is masked. -/
theorem onEvidence_iff_not_masked (hsource : obligation.source = .derived) :
    (foldedStatus toLowerCase obligation dispositions = .satisfied →
      OnEvidence toLowerCase obligation dispositions) ↔
        ¬Masked toLowerCase obligation dispositions := by
  rw [foldedStatus_satisfied_iff hsource]
  constructor
  · intro h hmasked
    obtain ⟨hcloses, d, hd, hasserts⟩ := closes_of_masked hmasked
    obtain ⟨hd, hanswers⟩ := (mem_pool_iff hsource).mp hd
    rw [(h hcloses).silent d hd hanswers] at hasserts
    cases hasserts
  · intro hmasked h
    exact onEvidence_of_closes hsource h hmasked

theorem foldOne_eq : foldOne toLowerCase obligation dispositions =
    { obligation with
      status := foldedStatus toLowerCase obligation dispositions
      cause := if foldedStatus toLowerCase obligation dispositions = .satisfied then none
        else obligation.cause } := by
  rw [foldOne]
  cases foldedStatus toLowerCase obligation dispositions <;> rfl

/-- The row that marks missing coverage keeps its status and its cause. -/
theorem foldOne_marker (hsource : obligation.source = .derived)
    (hcause : obligation.cause = some .derivationIncomplete) :
    foldOne toLowerCase obligation dispositions = { obligation with status := .unresolved } := by
  have hstatus : foldedStatus toLowerCase obligation dispositions = .unresolved := by
    rw [foldedStatus]
    dsimp only
    split
    · rfl
    · simp only [hsource, hcause, and_self, if_true, ite_self]
  rw [foldOne, hstatus]

end Fold

/-! ## The run -/

/-- Derived obligations close on evidence only, and missing coverage stays missing. -/
structure ClosesOnEvidence (toLowerCase : String → String) (record : Value)
    (obligations : List ObligationRow) (dispositions : Option (List Disposition)) : Prop where
  complete : (resolveDerivedObligations toLowerCase record true).coverage = .complete →
    IsClean toLowerCase record ∧
      HasRows (resolveDerivedObligations toLowerCase record true).rows (entriesOf record)
  marked : (resolveDerivedObligations toLowerCase record true).coverage ≠ .complete →
    ∃ marker, derivedCoverageRow (resolveDerivedObligations toLowerCase record true) = some marker ∧
      marker.status = .unresolved ∧ marker.cause = some .derivationIncomplete ∧
      ∀ answers, foldObligationDispositions toLowerCase [marker] answers = [marker]
  closed : ∀ row ∈ foldObligationDispositions toLowerCase obligations dispositions,
    row.source = .derived → row.status = .satisfied →
      OnEvidence toLowerCase row (dispositions.getD [])

/-- The run closes on evidence exactly when a clean record lists only usable entries, no more than there are rows
for, and no answer to a derived row is masked by a longer one. -/
theorem closesOnEvidence_iff (toLowerCase : String → String) (record : Value)
    (obligations : List ObligationRow) (dispositions : Option (List Disposition)) :
    ClosesOnEvidence toLowerCase record obligations dispositions ↔
      (IsClean toLowerCase record → (∀ entry ∈ entriesOf record, isUsable entry = true) ∧
        (entriesOf record).length ≤ maxDerivedObligations) ∧
      ∀ obligation ∈ obligations, obligation.source = .derived →
        ¬Masked toLowerCase obligation (dispositions.getD []) := by
  have hrows : IsClean toLowerCase record →
      (HasRows (resolveDerivedObligations toLowerCase record true).rows (entriesOf record) ↔
        (∀ entry ∈ entriesOf record, isUsable entry = true) ∧
          (entriesOf record).length ≤ maxDerivedObligations) := by
    intro hclean
    rw [rows_eq hclean.isRecord]
    exact hasRows_iff
  constructor
  · intro h
    constructor
    · intro hclean
      exact (hrows hclean).mp (h.complete (coverage_complete_iff.mpr hclean)).2
    · intro obligation hobligation hsource
      rw [← onEvidence_iff_not_masked hsource]
      intro hstatus
      have hrow := h.closed _ (mem_map_of_mem hobligation)
      rw [foldOne_eq] at hrow
      obtain ⟨h1, h2, h3, h4, h5⟩ := hrow hsource hstatus
      exact ⟨h1, h2, h3, h4, h5⟩
  · rintro ⟨hentries, hmasked⟩
    constructor
    · intro hcomplete
      have hclean := coverage_complete_iff.mp hcomplete
      exact ⟨hclean, (hrows hclean).mpr (hentries hclean)⟩
    · intro hcoverage
      refine ⟨_, by rw [derivedCoverageRow, if_neg (by simp [coverage_ne_complete hcoverage])], rfl, rfl, ?_⟩
      intro answers
      rw [foldObligationDispositions, map_singleton, foldOne_marker rfl rfl]
    · intro row hrow hsource hstatus
      obtain ⟨obligation, hobligation, rfl⟩ := mem_map.mp hrow
      rw [foldOne_eq] at hsource hstatus ⊢
      have hderived : obligation.source = .derived := hsource
      obtain ⟨h1, h2, h3, h4, h5⟩ :=
        (onEvidence_iff_not_masked hderived).mpr (hmasked obligation hobligation hderived) hstatus
      exact ⟨h1, h2, h3, h4, h5⟩

/-- A clean record with an entry that is null: coverage is complete, and the entry has no row. An answer by id says
that the obligation fails, and the longer answer by text closes the row. -/
theorem not_closesOnEvidence :
    let toLowerCase := fun s : String => String.ofList (s.toList.map Char.toLower)
    let record := Value.object [("status", .string "ok"), ("input_complete", .bool true),
      ("errors", .array []),
      ("obligations", .array [.object [("obligation", .string "hash last"),
        ("paths", .array [.string "src/mint.ts"])], .null])]
    let row : ObligationRow :=
      { id := "derived-1", source := .derived, text := "hash last", status := .unresolved
        anchors := some ["src/mint.ts"] }
    let dispositions := [⟨"derived-1", "satisfied", some "It fails."⟩,
      ⟨"hash last", "satisfied", some "Checked in src/mint.ts."⟩]
    ¬ClosesOnEvidence toLowerCase record [] none ∧
      (resolveDerivedObligations toLowerCase record true).rows.map (·.obligation) = [row] ∧
      ¬ClosesOnEvidence toLowerCase (.object []) [row] (some dispositions) := by
  intro toLowerCase record row dispositions
  refine ⟨?_, ?_, ?_⟩
  · intro h
    have hrow := (h.complete (by decide +kernel)).2 1 (by decide +kernel)
    exact absurd hrow (by decide +kernel)
  · have hrows : (resolveDerivedObligations toLowerCase record true).rows =
        [⟨"derived-1", "hash last", ["src/mint.ts"]⟩] := by decide +kernel
    rw [hrows]
    rfl
  · intro h
    have hmem := mem_map_of_mem (f := fun row => foldOne toLowerCase row dispositions)
      (mem_singleton_self row)
    have hevidence := h.closed _ hmem (by decide +kernel) (by decide +kernel)
    have hsilent := hevidence.silent ⟨"derived-1", "satisfied", some "It fails."⟩ mem_cons_self
      (.inr (by decide +kernel))
    exact absurd hsilent (by decide +kernel)

end PrReviewer.Enforcement
