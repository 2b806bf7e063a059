import Mathlib.Data.List.Forall2
import PrReviewer.Redact.Lines

/-!
# Masked diffs

* Each side of a diff is a stream of lines of its own (`feed`): the states of the two maskers are what these streams
  leave (`state_run`), so removed lines do not change what is kept (`separated`).
* After a secret-key line a side is masked while its lines are indented deeper than the last key line
  (`run_deeper`); the line that is not closes the run (`run_closed`), also where an outer key line still stands above
  it. So the blocks of a diff are masked whole if and only if no nested key line ends one (`redaction_iff`).
-/

namespace PrReviewer.Redact

open Js Pattern List

inductive Side where
  | next
  | removed
deriving DecidableEq

/-- What a side's masker is given for a line. -/
inductive Feed where
  | skip
  | reset
  | content (c : Units)

/-- The new side reads context and added lines, the removed side context and removed lines; any other line resets
both. -/
def feed (side : Side) (line : Units) : Feed :=
  if isPathBearingDiffHeader line then .reset
  else if line.head? = some 32 then .content line.tail
  else if line.head? = some 43 then (if side = .next then .content line.tail else .skip)
  else if line.head? = some 45 then (if side = .removed then .content line.tail else .skip)
  else .reset

/-- The side whose result stands for a content line in the output. -/
def emitter (line : Units) : Option Side :=
  if isPathBearingDiffHeader line then none
  else if line.head? = some 32 ∨ line.head? = some 43 then some .next
  else if line.head? = some 45 then some .removed
  else none

def DiffState.of (state : DiffState) : Side → ContinuationState
  | .next => state.next
  | .removed => state.removed

def advance (state : ContinuationState) : Feed → ContinuationState
  | .skip => state
  | .reset => .closed
  | .content c => (maskContentLine c state).2

/-! ## The sides -/

variable {side : Side} {line c : Units} {lines lines' before : List Units} {state : DiffState}

theorem state_maskDiffLine (line : Units) (state : DiffState) (side : Side) :
    (maskDiffLine line state).2.of side = advance (state.of side) (feed side line) := by
  rw [maskDiffLine, feed]
  cases side <;> split_ifs <;> simp_all [DiffState.of, advance, DiffState.closed]

/-- A content line comes out with its sign, masked by the side that emits it. -/
theorem maskDiffLine_of_emitter (h : emitter line = some side) :
    feed side line = .content line.tail ∧
      ∀ state, (maskDiffLine line state).1 = line.take 1 ++ (maskContentLine line.tail (state.of side)).1 := by
  rw [emitter] at h
  simp only [feed, maskDiffLine]
  split_ifs at h with hpath hnext hremoved
  · obtain rfl := Option.some.inj h
    rcases hnext with hsign | hsign <;> simp [hpath, hsign, DiffState.of]
  · obtain rfl := Option.some.inj h
    simp [hpath, hremoved, DiffState.of]

theorem maskDiffLine_metadata (h : emitter line = none) (hpath : isPathBearingDiffHeader line = false)
    (state : DiffState) : (maskDiffLine line state).1 = line := by
  rw [emitter] at h
  rw [maskDiffLine]
  split_ifs at h ⊢ <;> simp_all

/-- The states after some lines. -/
def runLines (state : DiffState) (lines : List Units) : DiffState :=
  lines.foldl (fun state line => (maskDiffLine line state).2) state

theorem state_run (lines : List Units) (state : DiffState) (side : Side) :
    (runLines state lines).of side = (lines.map (feed side)).foldl advance (state.of side) := by
  induction lines generalizing state with
  | nil => rfl
  | cons line lines ih =>
    rw [runLines, foldl_cons, map_cons, foldl_cons, ← state_maskDiffLine]
    exact ih (maskDiffLine line state).2

theorem getElem?_maskDiffLines (state : DiffState) (lines : List Units) (i : Nat) :
    (maskDiffLines state lines)[i]? = lines[i]?.map fun line => (maskDiffLine line (runLines state (lines.take i))).1 := by
  induction lines generalizing state i with
  | nil => rfl
  | cons line lines ih =>
    cases i with
    | zero => rfl
    | succ i => exact ih (maskDiffLine line state).2 i

/-- Lines of two diffs that are the same or both removed. -/
def SameButRemoved (line line' : Units) : Prop :=
  line = line' ∨ emitter line = some .removed ∧ emitter line' = some .removed

theorem feed_next_of_removed (h : emitter line = some .removed) : feed .next line = .skip := by
  rw [emitter] at h
  rw [feed]
  split_ifs at h ⊢ <;> simp_all

theorem feed_next_congr (h : List.Forall₂ SameButRemoved lines lines') (i : Nat) (st : ContinuationState) :
    ((lines.take i).map (feed .next)).foldl advance st = ((lines'.take i).map (feed .next)).foldl advance st := by
  induction h generalizing i st with
  | nil => rfl
  | cons hline _ ih =>
    cases i with
    | zero => rfl
    | succ i =>
      rw [take_succ_cons, take_succ_cons, map_cons, map_cons, foldl_cons, foldl_cons, ih]
      rcases hline with rfl | ⟨h, h'⟩
      · rfl
      · rw [feed_next_of_removed h, feed_next_of_removed h']

/-! ## Runs -/

/-- The line is none of the side's, or a line of it that is masked under a key indented by `indent`. -/
def Deeper (indent : Nat) : Feed → Prop
  | .skip => True
  | .reset => False
  | .content c => indent < indentOf c ∧ isBlank c = false

/-- The line is no key line of the side. -/
def NoKey : Feed → Prop
  | .content c => isBareSecretKeyLine c = false
  | .skip | .reset => True

variable {feeds : List Feed} {indent : Nat}

variable {st : ContinuationState}

theorem maskContentLine_key (h : isBareSecretKeyLine c = true) :
    (maskContentLine c st).2 = ⟨true, indentOf c⟩ := by
  simp [maskContentLine, h]

theorem advance_deeper {f : Feed} (hdeep : Deeper indent f) (hkey : NoKey f) :
    advance ⟨true, indent⟩ f = ⟨true, indent⟩ := by
  cases f with
  | skip => rfl
  | reset => exact hdeep.elim
  | content c =>
    have hc : isBareSecretKeyLine c = false := hkey
    have hd : indent < indentOf c ∧ isBlank c = false := hdeep
    simp [advance, maskContentLine, hc, hd]

/-- A run stays open while the lines of the side are deeper than its key. -/
theorem run_deeper (hdeep : ∀ f ∈ feeds, Deeper indent f) (hkey : ∀ f ∈ feeds, NoKey f) :
    feeds.foldl advance ⟨true, indent⟩ = ⟨true, indent⟩ := by
  induction feeds with
  | nil => rfl
  | cons f feeds ih =>
    rw [forall_mem_cons] at hdeep hkey
    rw [foldl_cons, advance_deeper hdeep.1 hkey.1]
    exact ih hdeep.2 hkey.2

/-- A closed run stays closed up to the next key line. -/
theorem run_closed (hst : st.isOpen = false) (hkey : ∀ f ∈ feeds, NoKey f) :
    (feeds.foldl advance st).isOpen = false := by
  induction feeds generalizing st with
  | nil => exact hst
  | cons f feeds ih =>
    rw [forall_mem_cons] at hkey
    refine ih ?_ hkey.2
    cases f with
    | skip => exact hst
    | reset => rfl
    | content c =>
      have hc : isBareSecretKeyLine c = false := hkey.1
      simp [advance, maskContentLine, hc, hst]

/-- A line that is not deeper than the key closes its run, up to the next key line. -/
theorem run_not_deeper (hkey : ∀ f ∈ feeds, NoKey f) (h : ∃ f ∈ feeds, ¬ Deeper indent f) :
    (feeds.foldl advance ⟨true, indent⟩).isOpen = false := by
  induction feeds with
  | nil => simp at h
  | cons f feeds ih =>
    rw [forall_mem_cons] at hkey
    rw [foldl_cons]
    by_cases hf : Deeper indent f
    · rw [advance_deeper hf hkey.1]
      refine ih hkey.2 ?_
      obtain ⟨g, hg, hnot⟩ := h
      rcases mem_cons.mp hg with rfl | hg
      · exact absurd hf hnot
      · exact ⟨g, hg, hnot⟩
    · refine run_closed ?_ hkey.2
      cases f with
      | skip => exact absurd trivial hf
      | reset => rfl
      | content c =>
        have hc : isBareSecretKeyLine c = false := hkey.1
        have hnot : ¬ (indentOf c > indent ∧ ¬ isBlank c = true) := by simpa [Deeper] using hf
        simp only [advance, maskContentLine, hc, Bool.false_eq_true, if_false, if_true, if_neg hnot]

/-- Outside the key lines a line is masked whole or left to the patterns. -/
theorem maskContentLine_cases (h : isBareSecretKeyLine c = false) (st : ContinuationState) :
    (maskContentLine c st).1 = if st.isOpen ∧ indentOf c > st.keyIndent ∧ ¬ isBlank c then maskWhole c else maskFlat c := by
  rw [maskContentLine, if_neg (by simp [h])]
  by_cases hopen : st.isOpen = true
  · rw [if_pos hopen]
    simp only [hopen, true_and]
    split <;> rfl
  · rw [if_neg hopen]
    simp [hopen]

/-! ## What masking a diff is for -/

/-- `line` stands in the block of the secret key `key` of a side and comes out by that side: there is no header and no
line of the side between them that is blank or not deeper than the key, and it is no key line itself. -/
structure InBlock (side : Side) (diff : Units) (before : List Units) (key : Units) (between : List Units)
    (line : Units) (after : List Units) : Prop where
  lines : linesOf diff = before ++ key :: between ++ line :: after
  read : feed side key = .content key.tail
  bare : isBareSecretKeyLine key.tail = true
  deeper : ∀ l ∈ between ++ [line], Deeper (indentOf key.tail) (feed side l)
  emitted : emitter line = some side
  plain : isBareSecretKeyLine line.tail = false

/-- Masking keeps the structure of a diff, separates its sides and masks the blocks of secret keys. -/
structure DiffRedaction (diff : Units) : Prop where
  sameLines : (linesOf (redactDiffText diff)).length = (linesOf diff).length
  sign : ∀ (i : Nat) line, (linesOf diff)[i]? = some line → emitter line ≠ none →
    ∃ masked, (linesOf (redactDiffText diff))[i]? = some masked ∧ masked.head? = line.head?
  metadata : ∀ (i : Nat) line, (linesOf diff)[i]? = some line → emitter line = none →
    isPathBearingDiffHeader line = false → (linesOf (redactDiffText diff))[i]? = some line
  separated : ∀ diff', List.Forall₂ SameButRemoved (linesOf diff) (linesOf diff') →
    ∀ (i : Nat) line, (linesOf diff)[i]? = some line → emitter line = some .next →
      (linesOf (redactDiffText diff'))[i]? = (linesOf (redactDiffText diff))[i]?
  blocks : ∀ side before key between line after, InBlock side diff before key between line after →
    (linesOf (redactDiffText diff))[(before ++ key :: between).length]? = some (line.take 1 ++ maskWhole line.tail)

/-- No nested key line ends a block: the lines behind the last key line in front of a line of a block, and the line,
are indented deeper than that key line, or the patterns mask the line whole anyway. -/
def NestedKeysHold (diff : Units) : Prop :=
  ∀ side before key between line after, InBlock side diff before key between line after →
    ∀ mid nested rest, between = mid ++ nested :: rest → feed side nested = .content nested.tail →
      isBareSecretKeyLine nested.tail = true → (∀ l ∈ rest, NoKey (feed side l)) →
      (∀ l ∈ rest ++ [line], Deeper (indentOf nested.tail) (feed side l)) ∨ maskFlat line.tail = maskWhole line.tail

variable {diff : Units} {key nested : Units} {between mid rest after : List Units}

theorem feed_content (h : feed side line = .content c) : c = line.tail := by
  rw [feed] at h
  split_ifs at h <;> simp_all

/-- The last member of a list with a property. -/
theorem exists_last {α : Type} {p : α → Prop} {xs : List α} (h : ∃ x ∈ xs, p x) :
    ∃ mid x rest, xs = mid ++ x :: rest ∧ p x ∧ ∀ y ∈ rest, ¬ p y := by
  induction xs with
  | nil => simp at h
  | cons y ys ih =>
    by_cases hys : ∃ x ∈ ys, p x
    · obtain ⟨mid, x, rest, rfl, hx, hrest⟩ := ih hys
      exact ⟨y :: mid, x, rest, rfl, hx, hrest⟩
    · obtain ⟨x, hx, hpx⟩ := h
      rcases mem_cons.mp hx with rfl | hx
      · exact ⟨[], x, ys, rfl, hpx, fun z hz hpz => hys ⟨z, hz, hpz⟩⟩
      · exact absurd ⟨x, hx, hpx⟩ hys

/-- What a side makes of a line is decided by its state behind the last key line. -/
theorem masked_after_key (hlines : linesOf diff = before ++ key :: rest ++ line :: after)
    (hread : feed side key = .content key.tail) (hbare : isBareSecretKeyLine key.tail = true)
    (hemit : emitter line = some side) :
    (linesOf (redactDiffText diff))[(before ++ key :: rest).length]? = some (line.take 1 ++
      (maskContentLine line.tail ((rest.map (feed side)).foldl advance ⟨true, indentOf key.tail⟩)).1) := by
  rw [linesOf_redactDiffText, getElem?_maskDiffLines, hlines, List.getElem?_append_right le_rfl, Nat.sub_self,
    List.getElem?_cons_zero, Option.map_some, take_left, (maskDiffLine_of_emitter hemit).2, state_run,
    map_append, foldl_append, map_cons, foldl_cons, hread]
  simp only [advance, maskContentLine_key hbare]

theorem mask_deeper (hst : st = ⟨true, indent⟩) (hplain : isBareSecretKeyLine c = false)
    (hdeep : Deeper indent (.content c)) : (maskContentLine c st).1 = maskWhole c := by
  have hd : indent < indentOf c ∧ isBlank c = false := hdeep
  rw [maskContentLine_cases hplain, if_pos (by simp [hst, hd])]

theorem mask_closed (hplain : isBareSecretKeyLine c = false) (h : st.isOpen = false) :
    (maskContentLine c st).1 = maskFlat c := by
  rw [maskContentLine_cases hplain, if_neg (by simp [h])]

theorem mask_not_deeper (hplain : isBareSecretKeyLine c = false) (hst : st = ⟨true, indent⟩)
    (h : ¬ Deeper indent (.content c)) : (maskContentLine c st).1 = maskFlat c := by
  have hnot : ¬ (st.isOpen ∧ indentOf c > st.keyIndent ∧ ¬ isBlank c) := by
    rw [hst]
    simpa [Deeper] using h
  rw [maskContentLine_cases hplain, if_neg hnot]

/-- Behind a last key line a line of the block is masked whole, or left to the patterns where the run has ended. -/
theorem mask_behind_key (hplain : isBareSecretKeyLine c = false) (hkey : ∀ f ∈ feeds, NoKey f) :
    ((∀ f ∈ feeds ++ [.content c], Deeper indent f) ∧
      (maskContentLine c (feeds.foldl advance ⟨true, indent⟩)).1 = maskWhole c) ∨
    ((¬ ∀ f ∈ feeds ++ [.content c], Deeper indent f) ∧
      (maskContentLine c (feeds.foldl advance ⟨true, indent⟩)).1 = maskFlat c) := by
  by_cases hdeep : ∀ f ∈ feeds, Deeper indent f
  · by_cases hc : Deeper indent (.content c)
    · exact .inl ⟨by simpa [or_imp, forall_and] using ⟨hdeep, hc⟩, mask_deeper (run_deeper hdeep hkey) hplain hc⟩
    · exact .inr ⟨fun h => hc (h _ (by simp)), mask_not_deeper hplain (run_deeper hdeep hkey) hc⟩
  · refine .inr ⟨fun h => hdeep fun f hf => h f (mem_append_left _ hf), mask_closed hplain ?_⟩
    push Not at hdeep
    exact run_not_deeper hkey hdeep

theorem block_iff (hblock : InBlock side diff before key between line after) :
    (linesOf (redactDiffText diff))[(before ++ key :: between).length]? = some (line.take 1 ++ maskWhole line.tail) ↔
      ∀ mid nested rest, between = mid ++ nested :: rest → feed side nested = .content nested.tail →
        isBareSecretKeyLine nested.tail = true → (∀ l ∈ rest, NoKey (feed side l)) →
        (∀ l ∈ rest ++ [line], Deeper (indentOf nested.tail) (feed side l)) ∨
          maskFlat line.tail = maskWhole line.tail := by
  have hline : feed side line = .content line.tail := (maskDiffLine_of_emitter hblock.emitted).1
  have hmap (indent : Nat) (rest : List Units) : (∀ l ∈ rest ++ [line], Deeper indent (feed side l)) ↔
      ∀ f ∈ rest.map (feed side) ++ [.content line.tail], Deeper indent f := by
    rw [← hline, ← map_singleton (f := feed side), ← map_append, forall_mem_map]
  have hkeys {rest : List Units} (h : ∀ l ∈ rest, NoKey (feed side l)) : ∀ f ∈ rest.map (feed side), NoKey f :=
    forall_mem_map.mpr h
  -- the line as its side makes it behind a nested key line
  have hnested {mid nested rest} (hbetween : between = mid ++ nested :: rest)
      (hread : feed side nested = .content nested.tail) (hbare : isBareSecretKeyLine nested.tail = true) :
      (linesOf (redactDiffText diff))[(before ++ key :: between).length]? = some (line.take 1 ++
        (maskContentLine line.tail ((rest.map (feed side)).foldl advance ⟨true, indentOf nested.tail⟩)).1) := by
    have hlines : linesOf diff = (before ++ key :: mid) ++ nested :: rest ++ line :: after := by
      rw [hblock.lines, hbetween]
      simp
    have h := masked_after_key hlines hread hbare hblock.emitted
    rwa [append_assoc, cons_append, ← hbetween] at h
  constructor
  · intro h mid nested rest hbetween hread hbare hlast
    rw [hnested hbetween hread hbare, Option.some.injEq, append_cancel_left_eq] at h
    rcases mask_behind_key hblock.plain (hkeys hlast) with ⟨hdeep, -⟩ | ⟨-, hflat⟩
    · exact .inl ((hmap _ _).mpr hdeep)
    · exact .inr (hflat.symm.trans h)
  · intro h
    by_cases hex : ∃ l ∈ between, ¬ NoKey (feed side l)
    · obtain ⟨mid, nested, rest, hbetween, hnot, hlast⟩ := exists_last hex
      have hread : feed side nested = .content nested.tail ∧ isBareSecretKeyLine nested.tail = true := by
        cases hfeed : feed side nested with
        | skip | reset => simp [hfeed, NoKey] at hnot
        | content c =>
          obtain rfl := feed_content hfeed
          exact ⟨rfl, by simpa [hfeed, NoKey] using hnot⟩
      have hlast' : ∀ l ∈ rest, NoKey (feed side l) := fun l hl => not_not.mp (hlast l hl)
      rw [hnested hbetween hread.1 hread.2]
      rcases h mid nested rest hbetween hread.1 hread.2 hlast' with hdeep | hflat
      · rcases mask_behind_key hblock.plain (hkeys hlast') with ⟨-, hwhole⟩ | ⟨hnot, -⟩
        · rw [hwhole]
        · exact absurd ((hmap _ _).mp hdeep) hnot
      · rcases mask_behind_key hblock.plain (hkeys hlast') with ⟨-, hwhole⟩ | ⟨-, hflat'⟩
        · rw [hwhole]
        · rw [hflat', hflat]
    · push Not at hex
      rw [masked_after_key hblock.lines hblock.read hblock.bare hblock.emitted]
      rcases mask_behind_key hblock.plain (hkeys hex) with ⟨-, hwhole⟩ | ⟨hnot, -⟩
      · rw [hwhole]
      · exact absurd ((hmap _ _).mp hblock.deeper) hnot

theorem redaction_iff (diff : Units) : DiffRedaction diff ↔ NestedKeysHold diff := by
  constructor
  · intro h side before key between line after hblock
    exact (block_iff hblock).mp (h.blocks side before key between line after hblock)
  · intro h
    have houtput (diff : Units) (i : Nat) : (linesOf (redactDiffText diff))[i]? = (linesOf diff)[i]?.map fun line =>
        (maskDiffLine line (runLines .closed ((linesOf diff).take i))).1 := by
      rw [linesOf_redactDiffText, getElem?_maskDiffLines]
    refine ⟨?_, fun i line hline hemit => ?_, fun i line hline hemit hpath => ?_, fun diff' hsame i line hline hemit => ?_,
      fun side before key between line after hblock => (block_iff hblock).mpr (h side before key between line after hblock)⟩
    · rw [linesOf_redactDiffText, length_maskDiffLines]
    · obtain ⟨side, hside⟩ := Option.ne_none_iff_exists'.mp hemit
      rw [houtput, hline, Option.map_some]
      refine ⟨_, rfl, ?_⟩
      rw [(maskDiffLine_of_emitter hside).2]
      cases line with
      | nil => simp [emitter, isPathBearingDiffHeader] at hside
      | cons sign content => rfl
    · rw [houtput, hline, Option.map_some, maskDiffLine_metadata hemit hpath]
    · have hline' : (linesOf diff')[i]? = some line := by
        obtain ⟨hlength, hall⟩ := forall₂_iff_get.mp hsame
        obtain ⟨hi, rfl⟩ := List.getElem?_eq_some_iff.mp hline
        rcases hall i hi (hlength ▸ hi) with heq | ⟨hremoved, -⟩
        · exact List.getElem?_eq_some_iff.mpr ⟨hlength ▸ hi, heq.symm⟩
        · rw [get_eq_getElem, hemit] at hremoved
          cases hremoved
      rw [houtput, houtput, hline, hline', Option.map_some, Option.map_some, (maskDiffLine_of_emitter hemit).2,
        (maskDiffLine_of_emitter hemit).2, state_run, state_run, feed_next_congr hsame]

/-- A nested key line and a line at its indentation: the value below the outer key stays. -/
def nestedKeyDiff : Units := units "+password:\n+  token:\n+  hunter2"

theorem nested_key_ends_block :
    redactDiffText nestedKeyDiff = nestedKeyDiff ∧ ¬ DiffRedaction nestedKeyDiff := by
  refine ⟨by decide +kernel, fun h => ?_⟩
  have hblock : InBlock .next nestedKeyDiff [] (units "+password:") [units "+  token:"] (units "+  hunter2") [] := by
    refine ⟨by decide +kernel, rfl, by decide +kernel, ?_, rfl, by decide +kernel⟩
    intro l hl
    simp only [cons_append, nil_append, mem_cons, not_mem_nil, or_false] at hl
    rcases hl with rfl | rfl
    · exact (by decide +kernel : indentOf (units "+password:").tail < indentOf (units "+  token:").tail ∧
        isBlank (units "+  token:").tail = false)
    · exact (by decide +kernel : indentOf (units "+password:").tail < indentOf (units "+  hunter2").tail ∧
        isBlank (units "+  hunter2").tail = false)
  have hmasked := h.blocks _ _ _ _ _ _ hblock
  revert hmasked
  decide +kernel

end PrReviewer.Redact
