import PrReviewer.Js.Except
import PrReviewer.Corpus.Assemble

/-!
# The corpus fits its window

- **Lines**: every part of the corpus is whole lines, so a marker stands in the corpus exactly when it stands in a part
  (`infix_flatten_iff`). The guards of the presence signals look for the marker anywhere: a part of another origin
  that holds it keeps the signal (`Unforged`).
-/

open Js List

namespace PrReviewer.Corpus

/-! ## Parts that are whole lines -/

section Lines

variable {needle a b : Bytes}

/-- A needle within one line does not reach across the end of a line. -/
theorem infix_append_iff (hn : Bytes.nl ∉ needle) (ha : Bytes.AtLineStart a) :
    needle <:+: a ++ b ↔ needle <:+: a ∨ needle <:+: b := by
  constructor
  · rintro ⟨s, t, h⟩
    rcases append_eq_append_iff.mp h with ⟨c, hsplit, hrest⟩ | ⟨c, hsplit, hrest⟩
    · exact .inl ⟨s, c, hsplit.symm⟩
    · rcases append_eq_append_iff.mp hsplit with ⟨d, hd, hc⟩ | ⟨d, hd, hc⟩
      · cases d using List.reverseRec with
        | nil => exact .inr ⟨[], t, by rw [hrest, hc]; rfl⟩
        | append_singleton d x =>
          have hlast : x = Bytes.nl := ha x (by simp [hd])
          exact absurd (by simp [hc, hlast]) hn
      · exact .inr ⟨d, t, by rw [hrest, hc]⟩
  · rintro (h | h)
    · exact h.trans (prefix_append a b).isInfix
    · exact h.trans (suffix_append a b).isInfix

/-- A marker stands in whole lines exactly when it stands in one of the parts. -/
theorem infix_flatten_iff {parts : List Bytes} (hne : needle ≠ []) (hn : Bytes.nl ∉ needle)
    (h : ∀ part ∈ parts, Bytes.AtLineStart part) :
    needle <:+: parts.flatten ↔ ∃ part ∈ parts, needle <:+: part := by
  induction parts with
  | nil => simpa using hne
  | cons part parts ih =>
    rw [flatten_cons, infix_append_iff hn (h part mem_cons_self),
      ih fun p hp => h p (mem_cons_of_mem _ hp)]
    simp

theorem atLineStart_concat (a : Bytes) : Bytes.AtLineStart (a ++ [Bytes.nl]) := by
  intro x hx
  simpa using hx.symm

theorem atLineStart_nil : Bytes.AtLineStart [] := nofun

theorem atLineStart_block (content : Bytes) : Bytes.AtLineStart (block content) := by
  unfold block
  split
  · exact atLineStart_nil
  · exact atLineStart_concat _

end Lines

/-! ## The parts of a corpus -/

section Parts

variable {sources : CorpusSources} {ws : CorpusWorkspace} {opts : CorpusBuildOptions}

/-- The parts of the corpus around a body, each whole lines. -/
def parts (ws : CorpusWorkspace) (opts : CorpusBuildOptions) (body : Bytes) : List Bytes :=
  [headerLine opts, standardsCapped ws opts ++ [Bytes.nl], body, reservedLedger ws opts, block (reservedClaims ws opts),
    block (reservedDerived ws opts), block (reservedSpecialists ws opts)]

theorem corpusOf_eq_flatten (body : Bytes) : corpusOf ws opts body = (parts ws opts body).flatten := by
  simp [corpusOf, parts]

theorem utf8_append (s t : String) : utf8 (s ++ t) = utf8 s ++ utf8 t := by
  simp [utf8]

theorem utf8_nl : utf8 "\n" = [Bytes.nl] := rfl

theorem reservedLedger_cases (ws : CorpusWorkspace) (opts : CorpusBuildOptions) :
    reservedLedger ws opts = [] ∨
      reservedLedger ws opts = utf8 "# Explicit Requirement Ledger\n" ++ bytes ws.requirementLedgerMd ++ utf8 "\n" := by
  rw [reservedLedger]
  split
  · exact .inl rfl
  · rw [ledgerSection]
    split
    · exact .inr rfl
    · exact .inl rfl

theorem block_cases (content : Option Bytes) (used : Nat) :
    block (reservedIfFits opts content used) = [] ∨
      block (reservedIfFits opts content used) = bytes content ++ [Bytes.nl] := by
  rw [reservedIfFits]
  split
  · rw [block]
    split
    · exact .inl rfl
    · exact .inr rfl
  · exact .inl rfl

theorem atLineStart_parts {body : Bytes} (h : Bytes.AtLineStart body) :
    ∀ part ∈ parts ws opts body, Bytes.AtLineStart part := by
  have hheader : Bytes.AtLineStart (headerLine opts) := by
    have hline : headerLine opts =
        utf8 ("# Repository Standards and Conventions (" ++ opts.standardsFile ++ ")") ++ [Bytes.nl] := by
      rw [← utf8_nl, ← utf8_append, headerLine, String.append_assoc, String.append_assoc, String.append_assoc]
      rfl
    rw [hline]
    exact atLineStart_concat _
  have hledger : Bytes.AtLineStart (reservedLedger ws opts) := by
    rcases reservedLedger_cases ws opts with hnone | hsome
    · rw [hnone]
      exact atLineStart_nil
    · rw [hsome, utf8_nl]
      exact atLineStart_concat _
  simp only [parts, forall_mem_cons, not_mem_nil, false_imp_iff, implies_true, and_true]
  exact ⟨hheader, atLineStart_concat _, h, hledger, atLineStart_block _, atLineStart_block _, atLineStart_block _⟩

/-! ## Sizes -/

/-- The bytes that are reserved, without the separators. -/
def reservedBytes (ws : CorpusWorkspace) (opts : CorpusBuildOptions) : Nat :=
  (standardsCapped ws opts).length + (reservedLedger ws opts).length + (reservedClaims ws opts).length
    + (reservedDerived ws opts).length + (reservedSpecialists ws opts).length

variable {limit : ℚ}

theorem coe_minus (limit : ℚ) (n : Nat) : Budget.minus limit n = ((limit - n : ℚ) : Budget) := rfl

theorem length_standardsCapped_le (ws : CorpusWorkspace) (hlimit : opts.maxCorpus = limit) (hfloor : 4100 ≤ limit) :
    ((standardsCapped ws opts).length : ℚ) ≤ limit - bodyFloor := by
  have hfloor' : ((bodyFloor : ℕ) : ℚ) = 4100 := by norm_num [bodyFloor]
  rw [standardsCapped, standardsCap, hlimit, coe_minus]
  split
  · exact length_truncateClean_le (by linarith) _
  · next hcap =>
    rw [not_lt, WithTop.coe_le_coe] at hcap
    exact (length_truncateClean_le (by positivity) _).trans hcap

theorem length_reservedLedger_le (ws : CorpusWorkspace) (hlimit : opts.maxCorpus = limit) (hfloor : 4100 ≤ limit) :
    ((standardsCapped ws opts).length + (reservedLedger ws opts).length : ℚ) ≤ limit - bodyFloor := by
  have hstandards := length_standardsCapped_le ws hlimit hfloor
  rw [reservedLedger, room, hlimit, coe_minus]
  split
  · simpa using hstandards
  · next hfits =>
    rw [WithTop.coe_le_coe] at hfits
    rcases Nat.eq_zero_or_pos (ledgerSection ws).length with hzero | hpos
    · rw [hzero]
      simpa using hstandards
    · have hlt := not_le.mp (not_and.mp hfits hpos)
      push_cast at hlt
      linarith

/-- A reservation keeps to the room that is left. -/
theorem length_reservedIfFits_le (hlimit : opts.maxCorpus = limit) (content : Option Bytes) {used : Nat}
    (hused : (used : ℚ) ≤ limit - bodyFloor) :
    (used + (reservedIfFits opts content used).length : ℚ) ≤ limit - bodyFloor := by
  rw [reservedIfFits, room, hlimit, coe_minus]
  split
  · next hfits =>
    have hlt := WithTop.coe_lt_coe.mp hfits.2
    push_cast at hlt
    linarith
  · simpa using hused

/-- The reserved sections leave the floor of the body. -/
theorem reserved_le (ws : CorpusWorkspace) (hlimit : opts.maxCorpus = limit) (hfloor : 4100 ≤ limit) :
    (reservedBytes ws opts : ℚ) ≤ limit - bodyFloor := by
  have hledger := length_reservedLedger_le ws hlimit hfloor
  have hclaims := length_reservedIfFits_le hlimit ws.claimFalsificationMd (by exact_mod_cast hledger)
  rw [← reservedClaims] at hclaims
  have hderived := length_reservedIfFits_le hlimit ws.derivedObligationsMd (by exact_mod_cast hclaims)
  rw [← reservedDerived] at hderived
  have hspecialists := length_reservedIfFits_le hlimit ws.specialistsMd (by exact_mod_cast hderived)
  rw [← reservedSpecialists] at hspecialists
  rw [reservedBytes]
  exact_mod_cast hspecialists

theorem framingBytes_le (hheader : (headerLine opts).length ≤ 4001) : framingBytes ws opts ≤ 4005 := by
  rw [framingBytes]
  split_ifs <;> omega

/-- The body gets what is left, which is more than its marker. -/
theorem bodyBudget_eq (ws : CorpusWorkspace) (hlimit : opts.maxCorpus = limit) (hfloor : 4100 ≤ limit)
    (hheader : (headerLine opts).length ≤ 4001) :
    bodyBudget ws opts = ((limit - (reservedBytes ws opts + framingBytes ws opts : Nat) : ℚ) : Budget) ∧
      95 ≤ limit - (reservedBytes ws opts + framingBytes ws opts : Nat) := by
  have hreserved := reserved_le ws hlimit hfloor
  have hframing : (framingBytes ws opts : ℚ) ≤ 4005 := by exact_mod_cast framingBytes_le hheader
  have hfloor' : ((bodyFloor : ℕ) : ℚ) = 4100 := by norm_num [bodyFloor]
  have hleft : 95 ≤ limit - (reservedBytes ws opts + framingBytes ws opts : Nat) := by
    push_cast
    linarith
  refine ⟨?_, hleft⟩
  rw [bodyBudget, hlimit, coe_minus, ← reservedBytes, max_eq_right]
  exact WithTop.coe_le_coe.mpr (by linarith)

theorem length_bodyMarker_le : (utf8 ("\n" ++ bodyMarker ++ "\n")).length ≤ 95 := by decide +kernel

/-- The body's marker fits in its budget. -/
theorem marker_le_bodyBudget (hfloor : ((4100 : ℚ) : Budget) ≤ opts.maxCorpus)
    (hheader : (headerLine opts).length ≤ 4001) :
    (((utf8 ("\n" ++ bodyMarker ++ "\n")).length : ℚ) : Budget) ≤ bodyBudget ws opts := by
  rcases eq_or_ne opts.maxCorpus ⊤ with htop | hne
  · have hbudget : bodyBudget ws opts = ⊤ := by
      rw [bodyBudget, htop]
      rfl
    rw [hbudget]
    exact le_top
  · obtain ⟨limit, hlimit⟩ := WithTop.ne_top_iff_exists.mp hne
    replace hlimit := hlimit.symm
    rw [hlimit, WithTop.coe_le_coe] at hfloor
    obtain ⟨hbudget, hleft⟩ := bodyBudget_eq ws hlimit hfloor hheader
    have hmarker : ((utf8 ("\n" ++ bodyMarker ++ "\n")).length : ℚ) ≤ 95 := by exact_mod_cast length_bodyMarker_le
    rw [hbudget, WithTop.coe_le_coe]
    linarith

theorem length_block (content : Bytes) :
    (block content).length = content.length + if content = [] then 0 else 1 := by
  rw [block]
  split
  · next h => rw [h]; rfl
  · simp

theorem length_corpusOf (body : Bytes) :
    (corpusOf ws opts body).length = reservedBytes ws opts + framingBytes ws opts + body.length := by
  simp only [corpusOf, length_append, length_block, reservedBytes, framingBytes, length_cons,
    length_nil]
  omega

/-- The corpus fits in its window. -/
theorem length_corpusOf_le (hfloor : ((4100 : ℚ) : Budget) ≤ opts.maxCorpus)
    (hheader : (headerLine opts).length ≤ 4001) (bodyMd : Bytes) :
    (((corpusOf ws opts (truncateClean bodyMd (bodyBudget ws opts) bodyMarker)).length : ℚ) : Budget) ≤
      opts.maxCorpus := by
  rcases eq_or_ne opts.maxCorpus ⊤ with htop | hne
  · rw [htop]
    exact le_top
  · obtain ⟨limit, hlimit⟩ := WithTop.ne_top_iff_exists.mp hne
    replace hlimit := hlimit.symm
    rw [hlimit, WithTop.coe_le_coe] at hfloor
    obtain ⟨hbudget, hleft⟩ := bodyBudget_eq ws hlimit hfloor hheader
    have hpos : (0 : ℚ) ≤ limit - (reservedBytes ws opts + framingBytes ws opts : Nat) := by linarith
    have hbody : ((truncateClean bodyMd (bodyBudget ws opts) bodyMarker).length : ℚ) ≤
        limit - (reservedBytes ws opts + framingBytes ws opts : Nat) := by
      rw [hbudget]
      exact length_truncateClean_le hpos bodyMarker
    rw [hlimit, WithTop.coe_le_coe, length_corpusOf]
    push_cast at hbody ⊢
    linarith

/-! ## The build -/

/-- The body, given the sections before the diff. -/
def bodyOf (sources : CorpusSources) (ws : CorpusWorkspace) (opts : CorpusBuildOptions) (front : Bytes) : Bytes :=
  front ++ diffSection sources ws opts ++ bodyBack ws opts

/-- The body as it stands in the corpus. -/
def truncatedBody (sources : CorpusSources) (ws : CorpusWorkspace) (opts : CorpusBuildOptions) (front : Bytes) :
    Bytes :=
  truncateClean (bodyOf sources ws opts front) (bodyBudget ws opts) bodyMarker

/-- What a presence signal reads after the build. -/
def signalLeft (r : CorpusBuildResult) (present : Option Bytes) (name : String) : Bytes :=
  (r.artifacts.get? name).getD (bytes present)

theorem getLast?_bodyOf (front : Bytes) : (bodyOf sources ws opts front).getLast? = some Bytes.nl := by
  have hsection : ∀ xs content, (xs ++ pushSection (some "# Repository History") content none).getLast? =
      some Bytes.nl := by
    intro xs content
    rw [pushSection, utf8_nl, ← append_assoc, List.getLast?_concat]
  rw [bodyOf, bodyBack, ← append_assoc]
  exact hsection _ _

/-- A diff section that survived stands in the corpus behind the sections before it. -/
theorem exists_diffSection (front : Bytes)
    (h : ((truncatedBody sources ws opts front).drop front.length).take (diffSection sources ws opts).length =
      diffSection sources ws opts) :
    ∃ before after, corpusOf ws opts (truncatedBody sources ws opts front) =
        before ++ diffSection sources ws opts ++ after ∧
      before.length = (headerLine opts).length + (standardsCapped ws opts).length + 1 + front.length := by
  obtain ⟨body, hbody⟩ : ∃ body, body = truncatedBody sources ws opts front := ⟨_, rfl⟩
  rw [← hbody] at h ⊢
  have hlength : 0 < (diffSection sources ws opts).length := by
    have hpos : 0 < (utf8 "# PR Diff\n").length := by decide +kernel
    simp only [diffSection, length_append]
    omega
  have hfront : front.length ≤ body.length := by
    by_contra hlt
    rw [drop_eq_nil_of_le (by omega), take_nil] at h
    rw [← h] at hlength
    exact Nat.lt_irrefl 0 hlength
  have hsplit : body = body.take front.length ++ (diffSection sources ws opts
      ++ (body.drop front.length).drop (diffSection sources ws opts).length) := by
    have hrest := take_append_drop (diffSection sources ws opts).length (body.drop front.length)
    rw [h] at hrest
    rw [hrest, take_append_drop]
  refine ⟨headerLine opts ++ standardsCapped ws opts ++ [Bytes.nl] ++ body.take front.length,
    (body.drop front.length).drop (diffSection sources ws opts).length ++ (reservedLedger ws opts
      ++ (block (reservedClaims ws opts) ++ (block (reservedDerived ws opts) ++ block (reservedSpecialists ws opts)))),
    ?_, ?_⟩
  · rw [corpusOf]
    conv_lhs => rw [hsplit]
    simp only [append_assoc]
  · simp only [length_append, length_take, length_cons, length_nil, Nat.min_eq_left hfront]

theorem atLineStart_truncatedBody (sources : CorpusSources) (ws : CorpusWorkspace)
    (hfloor : ((4100 : ℚ) : Budget) ≤ opts.maxCorpus)
    (hheader : (headerLine opts).length ≤ 4001) (front : Bytes) :
    Bytes.AtLineStart (truncatedBody sources ws opts front) := by
  have hlast : (truncatedBody sources ws opts front).getLast? = some Bytes.nl := by
    rw [truncatedBody]
    rcases truncateClean_getLast (marker_le_bodyBudget hfloor hheader) with hsame | hlast
    · rw [hsame, getLast?_bodyOf]
    · exact hlast
  intro x hx
  rw [hlast] at hx
  exact (Option.some.inj hx).symm

/-- The marker stands in the corpus exactly when it stands in a part of it. -/
theorem includes_corpusOf_iff (ws : CorpusWorkspace) (opts : CorpusBuildOptions) {marker : Bytes} (hne : marker ≠ []) (hnl : Bytes.nl ∉ marker) {body : Bytes}
    (hbody : Bytes.AtLineStart body) :
    Bytes.includes (corpusOf ws opts body) marker = true ↔ ∃ part ∈ parts ws opts body, marker <:+: part := by
  rw [Bytes.includes, decide_eq_true_eq, corpusOf_eq_flatten]
  exact infix_flatten_iff hne hnl (atLineStart_parts hbody)

theorem get?_guardSignal_self (output marker : Bytes) (present : Option Bytes) (name : String)
    {artifacts : Map String Bytes} (h : artifacts.get? name = none) :
    ((guardSignal output marker present name artifacts).get? name).getD (bytes present) ≠ [] ↔
      nonEmpty present = true ∧ Bytes.includes output marker = true := by
  rw [guardSignal]
  split
  · next hguard => simp [hguard.2]
  · next hguard =>
    rw [h]
    simp only [not_and, Bool.not_eq_false] at hguard
    simp only [Option.getD_none, nonEmpty, ne_eq, decide_eq_true_eq] at hguard ⊢
    exact ⟨fun hne => ⟨hne, hguard hne⟩, And.left⟩

theorem get?_guardSignal_ne (output marker : Bytes) (present : Option Bytes) {name other : String}
    (h : other ≠ name) (artifacts : Map String Bytes) :
    (guardSignal output marker present name artifacts).get? other = artifacts.get? other := by
  rw [guardSignal]
  split
  · exact Map.get?_set_ne h
  · rfl

/-- The corpus fits, its sections are whole or left out, and so are the diff credit and the signals. -/
structure IsWhole (sources : CorpusSources) (ws : CorpusWorkspace) (opts : CorpusBuildOptions)
    (r : CorpusBuildResult) (front output : Bytes) : Prop where
  built : bodyFront sources ws opts = .ok front
  written : r.artifacts.get? r.outputName = some output
  fits : ((output.length : ℚ) : Budget) ≤ opts.maxCorpus
  layout : output = headerLine opts ++ standardsCapped ws opts ++ [Bytes.nl] ++ truncatedBody sources ws opts front
    ++ reservedLedger ws opts ++ block (reservedClaims ws opts) ++ block (reservedDerived ws opts)
    ++ block (reservedSpecialists ws opts)
  ledger : reservedLedger ws opts = [] ∨
    reservedLedger ws opts = utf8 "# Explicit Requirement Ledger\n" ++ bytes ws.requirementLedgerMd ++ utf8 "\n"
  claims : block (reservedClaims ws opts) = [] ∨
    block (reservedClaims ws opts) = bytes ws.claimFalsificationMd ++ [Bytes.nl]
  derived : block (reservedDerived ws opts) = [] ∨
    block (reservedDerived ws opts) = bytes ws.derivedObligationsMd ++ [Bytes.nl]
  specialists : block (reservedSpecialists ws opts) = [] ∨
    block (reservedSpecialists ws opts) = bytes ws.specialistsMd ++ [Bytes.nl]
  payload : r.corpusDiffPayload = [] ∨ (r.corpusDiffPayload = diffContent sources ws opts ∧
    ∃ before after, output = before ++ diffSection sources ws opts ++ after ∧
      before.length = (headerLine opts).length + (standardsCapped ws opts).length + 1 + front.length)
  signals : opts.slot = .primary →
    (signalLeft r ws.requirementLedgerPresent "requirement-ledger-present.txt" ≠ [] → reservedLedger ws opts ≠ []) ∧
    (signalLeft r ws.specialistLeadsPresent "specialist-leads-present.txt" ≠ [] → reservedSpecialists ws opts ≠ [])

/-- No part of the corpus holds the marker of a section that is left out although its signal is there. -/
structure Unforged (ws : CorpusWorkspace) (opts : CorpusBuildOptions) (body : Bytes) : Prop where
  ledger : nonEmpty ws.requirementLedgerPresent = true → reservedLedger ws opts = [] →
    ∀ part ∈ parts ws opts body, ¬ledgerMarker <:+: part
  specialists : nonEmpty ws.specialistLeadsPresent = true → reservedSpecialists ws opts = [] →
    ∀ part ∈ parts ws opts body, ¬specialistMarker <:+: part

/-- The files that are written before the signals are looked at. -/
def artifactsOf (sources : CorpusSources) (ws : CorpusWorkspace) (opts : CorpusBuildOptions) (front : Bytes) :
    Map String Bytes :=
  ((((((firstArtifacts sources ws opts).set "review-corpus.body.md" (bodyOf sources ws opts front)).set
    "standards-context.capped.md" (standardsCapped ws opts)).set
    "requirement-ledger.section.md" (reservedLedger ws opts)).set
    "review-corpus.body.truncated.md" (truncatedBody sources ws opts front)).set (outputName opts)
    (corpusOf ws opts (truncatedBody sources ws opts front)))

/-- The files with the guarded signals. -/
def guardedArtifacts (sources : CorpusSources) (ws : CorpusWorkspace) (opts : CorpusBuildOptions) (front : Bytes) :
    Map String Bytes :=
  if opts.slot = .smart then artifactsOf sources ws opts front
  else
    guardSignal (corpusOf ws opts (truncatedBody sources ws opts front)) specialistMarker ws.specialistLeadsPresent
      "specialist-leads-present.txt"
      (guardSignal (corpusOf ws opts (truncatedBody sources ws opts front)) ledgerMarker ws.requirementLedgerPresent
        "requirement-ledger-present.txt" (artifactsOf sources ws opts front))

/-- A build that returns. -/
theorem exists_front {r : CorpusBuildResult} (h : buildReviewCorpus sources ws opts = .ok r) :
    ∃ front, bodyFront sources ws opts = .ok front ∧ r.artifacts = guardedArtifacts sources ws opts front ∧
      r.outputName = outputName opts ∧
      r.corpusDiffPayload =
        if ((truncatedBody sources ws opts front).drop front.length).take (diffSection sources ws opts).length =
          diffSection sources ws opts then diffContent sources ws opts else [] := by
  obtain ⟨front, hfront, hr⟩ := Except.of_bind_ok h
  cases hr
  exact ⟨front, hfront, rfl, rfl, rfl⟩

theorem outputName_ne (opts : CorpusBuildOptions) :
    outputName opts ≠ "requirement-ledger-present.txt" ∧ outputName opts ≠ "specialist-leads-present.txt" := by
  unfold outputName
  split <;> decide

/-- The build writes the signals only to empty them. -/
theorem get?_artifactsOf (front : Bytes) {name : String}
    (h : name = "requirement-ledger-present.txt" ∨ name = "specialist-leads-present.txt") :
    (artifactsOf sources ws opts front).get? name = none := by
  have hfirst : (firstArtifacts sources ws opts).get? name = none := by
    rcases h with rfl | rfl <;> rw [firstArtifacts] <;> cases opts.tier <;> cases omitsHarness ws opts <;>
      simp [Map.get?_set]
  have hname : name ≠ outputName opts := by
    rcases h with rfl | rfl
    · exact (outputName_ne opts).1.symm
    · exact (outputName_ne opts).2.symm
  rw [artifactsOf, Map.get?_set_ne hname]
  rcases h with rfl | rfl
  · rw [Map.get?_set_ne (by decide), Map.get?_set_ne (by decide), Map.get?_set_ne (by decide),
      Map.get?_set_ne (by decide), hfirst]
  · rw [Map.get?_set_ne (by decide), Map.get?_set_ne (by decide), Map.get?_set_ne (by decide),
      Map.get?_set_ne (by decide), hfirst]

theorem get?_outputName (front : Bytes) :
    (guardedArtifacts sources ws opts front).get? (outputName opts) =
      some (corpusOf ws opts (truncatedBody sources ws opts front)) := by
  have hartifacts : (artifactsOf sources ws opts front).get? (outputName opts) =
      some (corpusOf ws opts (truncatedBody sources ws opts front)) := Map.get?_set_self ..
  rw [guardedArtifacts]
  split
  · exact hartifacts
  · rw [get?_guardSignal_ne _ _ _ (outputName_ne opts).2, get?_guardSignal_ne _ _ _ (outputName_ne opts).1, hartifacts]

/-- A signal is left exactly when it was there and its marker stands somewhere in the corpus. -/
theorem signals_left {r : CorpusBuildResult} {front : Bytes} (hslot : opts.slot = .primary)
    (hr : r.artifacts = guardedArtifacts sources ws opts front) :
    (signalLeft r ws.requirementLedgerPresent "requirement-ledger-present.txt" ≠ [] ↔
      nonEmpty ws.requirementLedgerPresent = true ∧
        Bytes.includes (corpusOf ws opts (truncatedBody sources ws opts front)) ledgerMarker = true) ∧
    (signalLeft r ws.specialistLeadsPresent "specialist-leads-present.txt" ≠ [] ↔
      nonEmpty ws.specialistLeadsPresent = true ∧
        Bytes.includes (corpusOf ws opts (truncatedBody sources ws opts front)) specialistMarker = true) := by
  have hguarded : ¬opts.slot = .smart := by
    rw [hslot]
    decide
  rw [signalLeft, signalLeft, hr, guardedArtifacts, if_neg hguarded]
  constructor
  · rw [get?_guardSignal_ne _ _ _ (by decide)]
    exact get?_guardSignal_self _ _ _ _ (get?_artifactsOf front (.inl rfl))
  · refine get?_guardSignal_self _ _ _ _ ?_
    rw [get?_guardSignal_ne _ _ _ (by decide), get?_artifactsOf front (.inr rfl)]

/-- A build that returns makes a corpus that fits, of whole sections, in which nothing is credited or announced that
is not there, exactly when no part of the corpus holds the marker of a section that is left out. -/
theorem isWhole_iff_unforged (sources : CorpusSources) (ws : CorpusWorkspace) (opts : CorpusBuildOptions)
    (r : CorpusBuildResult) (hfloor : ((4100 : ℚ) : Budget) ≤ opts.maxCorpus)
    (hheader : (headerLine opts).length ≤ 4001) (h : buildReviewCorpus sources ws opts = .ok r) :
    (∃ front output, IsWhole sources ws opts r front output) ↔
      ∀ front, bodyFront sources ws opts = .ok front → opts.slot = .primary →
        Unforged ws opts (truncatedBody sources ws opts front) := by
  obtain ⟨front, hfront, hartifacts, hname, hpayload⟩ := exists_front h
  have hbody := atLineStart_truncatedBody sources ws hfloor hheader front
  have hledger : Bytes.includes (corpusOf ws opts (truncatedBody sources ws opts front)) ledgerMarker = true ↔
      ∃ part ∈ parts ws opts (truncatedBody sources ws opts front), ledgerMarker <:+: part :=
    includes_corpusOf_iff ws opts (by decide) (by decide) hbody
  have hspecialist : Bytes.includes (corpusOf ws opts (truncatedBody sources ws opts front)) specialistMarker = true ↔
      ∃ part ∈ parts ws opts (truncatedBody sources ws opts front), specialistMarker <:+: part :=
    includes_corpusOf_iff ws opts (by decide) (by decide) hbody
  constructor
  · rintro ⟨front', output, hwhole⟩ front'' hfront'' hslot
    obtain rfl : front = front'' := Except.ok.inj (hfront.symm.trans hfront'')
    obtain ⟨hleft, hleft'⟩ := signals_left hslot hartifacts
    obtain ⟨hsignal, hsignal'⟩ := hwhole.signals hslot
    constructor
    · intro hpresent hout part hpart hmarker
      exact hsignal (hleft.mpr ⟨hpresent, hledger.mpr ⟨part, hpart, hmarker⟩⟩) hout
    · intro hpresent hout part hpart hmarker
      exact hsignal' (hleft'.mpr ⟨hpresent, hspecialist.mpr ⟨part, hpart, hmarker⟩⟩) hout
  · intro hunforged
    refine ⟨front, corpusOf ws opts (truncatedBody sources ws opts front), hfront, ?_, ?_, rfl, ?_, ?_, ?_, ?_, ?_, ?_⟩
    · rw [hname, hartifacts, get?_outputName]
    · exact length_corpusOf_le hfloor hheader _
    · exact reservedLedger_cases ws opts
    · exact block_cases _ _
    · exact block_cases _ _
    · exact block_cases _ _
    · rw [hpayload]
      split
      · next hsurvived => exact .inr ⟨rfl, exists_diffSection front hsurvived⟩
      · exact .inl rfl
    · intro hslot
      obtain ⟨hleft, hleft'⟩ := signals_left hslot hartifacts
      have hforged := hunforged front hfront hslot
      constructor
      · intro hsignal hout
        obtain ⟨part, hpart, hmarker⟩ := hledger.mp (hleft.mp hsignal).2
        exact hforged.ledger (hleft.mp hsignal).1 hout part hpart hmarker
      · intro hsignal hout
        obtain ⟨part, hpart, hmarker⟩ := hspecialist.mp (hleft'.mp hsignal).2
        exact hforged.specialists (hleft'.mp hsignal).1 hout part hpart hmarker

end Parts

/-! ## A ledger that fits, and one that does not -/

/-- The projections of files without content. -/
def emptySources : CorpusSources where
  prMetadataLine
    | none => .error "missing input"
    | some _ => .ok []
  classificationLine _ := .ok []
  prioritizeDiff diff _ _ := diff

/-- A workspace with a manifest, a ledger and the signal of one. -/
def ledgerWorkspace (manifest ledger : Bytes) : CorpusWorkspace where
  manifestContextMd := some manifest
  prJson := some []
  classificationJson := none
  relatedCodeTruncatedMd := none
  syntaxContextTruncatedMd := none
  repoMapMd := none
  prThreadMd := none
  reviewThreadsMd := none
  humanReviewsMd := none
  linkedIssuesMd := none
  ciChecksContent := none
  versionHintsTruncatedTxt := none
  toolHarnessMd := none
  repositorySkillAddendumMd := none
  toolHarnessSmartMd := none
  evidenceProvidersMd := none
  imageDigestContextMd := none
  dependencyCoverageMd := none
  reReviewScopeMd := none
  linkedSourcesMd := none
  repoImpactTruncatedMd := none
  repoHistoryTruncatedMd := none
  prDiff := none
  prFilesJson := none
  prDiffTruncated := none
  prFilesTruncatedJson := none
  standardsContextMd := none
  requirementLedgerMd := some ledger
  claimFalsificationMd := none
  derivedObligationsMd := none
  specialistsMd := none
  requirementLedgerPresent := some (utf8 "1\n")
  specialistLeadsPresent := none

/-- A primary build with room for 100 bytes of reserved sections. -/
def narrowOptions : CorpusBuildOptions where
  tier := .primary
  slot := .primary
  maxCorpus := ((4200 : ℚ) : Budget)
  diffBudget := ((1000 : ℚ) : Budget)
  filesBudget := ((1000 : ℚ) : Budget)
  repoMapMaxBytes := ((1000 : ℚ) : Budget)
  standardsFile := ""
  ciChecksFile := ""
  budgetGuard := true
  generatedPaths _ := false

theorem narrowOptions_floor : ((4100 : ℚ) : Budget) ≤ narrowOptions.maxCorpus := WithTop.coe_le_coe.mpr (by norm_num)

theorem narrowOptions_header : (headerLine narrowOptions).length ≤ 4001 := by decide +kernel

/-- A ledger that fits is in the corpus, and its signal stays. -/
theorem isWhole_iff_unforged_ledger :
    ∃ r, buildReviewCorpus emptySources (ledgerWorkspace [] (utf8 "- one\n")) narrowOptions = .ok r ∧
      ∃ front output, IsWhole emptySources (ledgerWorkspace [] (utf8 "- one\n")) narrowOptions r front output := by
  obtain ⟨r, hr⟩ : ∃ r, buildReviewCorpus emptySources (ledgerWorkspace [] (utf8 "- one\n")) narrowOptions = .ok r :=
    ⟨_, rfl⟩
  refine ⟨r, hr, (isWhole_iff_unforged _ _ _ r narrowOptions_floor narrowOptions_header hr).mpr ?_⟩
  intro front hfront hslot
  have hledger : reservedLedger (ledgerWorkspace [] (utf8 "- one\n")) narrowOptions ≠ [] := by decide +kernel
  have hleads : nonEmpty (ledgerWorkspace [] (utf8 "- one\n")).specialistLeadsPresent = false := rfl
  constructor
  · intro _ hout
    exact absurd hout hledger
  · intro hpresent
    rw [hleads] at hpresent
    exact absurd hpresent Bool.false_ne_true

/-- A ledger that does not fit. -/
def longLedger : Bytes := List.replicate 100 0x61

def forgedWorkspace : CorpusWorkspace := ledgerWorkspace (utf8 "# Explicit Requirement Ledger\n") longLedger

instance includes_forged : Fact ((bodyFront emptySources forgedWorkspace narrowOptions).toOption.any (fun front =>
    Bytes.includes (corpusOf forgedWorkspace narrowOptions
      (truncatedBody emptySources forgedWorkspace narrowOptions front)) ledgerMarker) = true) :=
  ⟨by decide +kernel⟩

/-- A part of another origin keeps the signal of a ledger that was left out. -/
theorem not_isWhole_forged :
    ((4100 : ℚ) : Budget) ≤ narrowOptions.maxCorpus ∧ (headerLine narrowOptions).length ≤ 4001 ∧
      ∃ r, buildReviewCorpus emptySources forgedWorkspace narrowOptions = .ok r ∧
        ¬∃ front output, IsWhole emptySources forgedWorkspace narrowOptions r front output := by
  obtain ⟨r, hr⟩ : ∃ r, buildReviewCorpus emptySources forgedWorkspace narrowOptions = .ok r := ⟨_, rfl⟩
  refine ⟨narrowOptions_floor, narrowOptions_header, r, hr, ?_⟩
  rintro ⟨front', output, hwhole⟩
  obtain ⟨front, hfront, hartifacts, -, -⟩ := exists_front hr
  have hincluded : Bytes.includes (corpusOf forgedWorkspace narrowOptions
      (truncatedBody emptySources forgedWorkspace narrowOptions front)) ledgerMarker = true := by
    have hany := includes_forged.out
    rwa [hfront] at hany
  have hleft := (signals_left rfl hartifacts).1.mpr ⟨rfl, hincluded⟩
  have hout : reservedLedger forgedWorkspace narrowOptions = [] := by decide +kernel
  exact (hwhole.signals rfl).1 hleft hout

end PrReviewer.Corpus
