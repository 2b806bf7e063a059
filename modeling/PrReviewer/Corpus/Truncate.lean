import PrReviewer.Corpus.Chunks
import Mathlib.Data.Rat.Floor

/-!
# Truncation of a section

`truncateClean` of `src/corpus/truncate.ts`: the longest run of whole lines that fits with the marker, with a code
fence closed that is open at the cut. A budget is a number, or infinity.
-/

open Js List

namespace PrReviewer.Corpus

/-- A number of bytes that may be used, possibly negative or with a fraction. -/
abbrev Budget := WithTop ℚ

/-! ## Lines -/

/-- The character of a code fence. -/
def backtick : Char := Char.ofNat 0x60

/-- `[ \t\r\n]`. -/
def isBlank (c : Char) : Bool := c = ' ' || c = '\t' || c = '\r' || c = '\n'

/-- `line.replace(/^[ \t\r\n]+|[ \t\r\n]+$/g, "")`. -/
def stripped (line : List Char) : List Char := (line.dropWhile isBlank).rdropWhile isBlank

/-- `/^[ \t]*(...)/` with three or more backticks, or tildes: the delimiter of the fence that a line opens. -/
def openedFence (line : List Char) : List Char :=
  let rest := line.dropWhile fun c => c = ' ' || c = '\t'
  let ticks := rest.takeWhile (· = backtick)
  let tildes := rest.takeWhile (· = '~')
  if 3 ≤ ticks.length then ticks else if 3 ≤ tildes.length then tildes else []

/-- A line that closes the fence: its character only, as often at least. -/
def closesFence (fence line : List Char) : Bool :=
  decide (fence.length ≤ (stripped line).length) && (stripped line).all fun c => some c = fence.head?

/-- The fence that is open after the lines, with the line that opened it; `[]` when none is. -/
structure FenceState where
  opener : Nat
  fence : List Char

/-- One line. -/
def scanLine (state : FenceState) (line : List Char × Nat) : FenceState :=
  if state.fence ≠ [] then if closesFence state.fence line.1 then { state with fence := [] } else state
  else if openedFence line.1 ≠ [] then ⟨line.2, openedFence line.1⟩
  else state

def scanFences (lines : List (List Char)) : FenceState := lines.zipIdx.foldl scanLine ⟨0, []⟩

/-- `lines.join("\n")`. -/
def joinLines (lines : List (List Char)) : List Char := List.intercalate ['\n'] lines

/-- The bytes of a text. -/
def encoded (cs : List Char) : Bytes := utf8 (String.ofList cs)

/-- The number of lines that stay: the last one is dropped until they fit, or the opener is gone. -/
def keptLines (fits : Nat → Bool) (opener : Nat) : Nat → Nat
  | 0 => 0
  | n + 1 => if opener < n + 1 ∧ fits (n + 1) = false then keptLines fits opener n else n + 1

/-! ## Truncation -/

/-- The end of the last whole line of a clip; a line feed at its front does not count. -/
def lineEnd (clip : Bytes) : Nat :=
  match Bytes.lastIndexOf? clip [Bytes.nl] with
  | some i => if 0 < i then i else clip.length
  | none => clip.length

/-- The text of the lines, with a fence closed that is open at the end. -/
def closedText (lines : List (List Char)) (suffix : Bytes) (maxBytes : ℚ) : List Char :=
  let state := scanFences lines
  if state.fence = [] then joinLines lines
  else
    let closer := '\n' :: state.fence
    let fits := fun n =>
      decide (((encoded (joinLines (lines.take n))).length + (encoded closer).length + suffix.length : ℚ) ≤ maxBytes)
    let kept := keptLines fits state.opener lines.length
    if state.opener < kept then joinLines (lines.take kept) ++ closer else joinLines (lines.take kept)

/-- A section that does not fit. -/
def cutClean (src : Bytes) (maxBytes : ℚ) (marker : String) : Bytes :=
  let suffix := utf8 ("\n" ++ marker ++ "\n")
  if maxBytes < suffix.length then List.replicate ⌊min maxBytes 3⌋₊ 0x2e
  else
    let clip := src.take ⌊maxBytes - suffix.length⌋₊
    let text := (decodeUtf8Ignore (clip.take (lineEnd clip))).toList
    encoded (closedText (text.splitOn '\n') suffix maxBytes) ++ suffix

def truncateClean (src : Bytes) (maxBytes : Budget) (marker : String) : Bytes :=
  match maxBytes with
  | ⊤ => src
  | (max : ℚ) => if (src.length : ℚ) ≤ max then src else cutClean src max marker

/-! ## Decoding drops bytes only -/

theorem toNat_ofNat_le (n : Nat) : (Char.ofNat n).toNat ≤ n := by
  by_cases h : n.isValidChar
  · rw [Char.ofNat, dif_pos h]
    exact Nat.le_refl n
  · rw [Char.ofNat, dif_neg h]
    exact Nat.zero_le n

variable {n : Nat} {c : Char} {max : ℚ} {src : Bytes}

/-- The size of a character below `n`, in bytes. -/
theorem utf8Size_le (h : c.toNat < n) :
    (n ≤ 0x80 → c.utf8Size ≤ 1) ∧ (n ≤ 0x800 → c.utf8Size ≤ 2) ∧ (n ≤ 0x10000 → c.utf8Size ≤ 3) := by
  have hval : c.val.toNat < n := h
  simp only [Char.utf8Size, UInt32.le_iff_toNat_le, UInt32.toNat_ofNatLT]
  split_ifs <;> omega

/-- The bits of a sequence, given a bound on those of its first byte. -/
theorem foldl_bits_lt (bs : Bytes) {bits bound : Nat} (h : bits < bound) :
    bs.foldl (fun cp b => cp * 64 + (b &&& 0x3f).toNat) bits < bound * 64 ^ bs.length := by
  induction bs generalizing bits bound with
  | nil => simpa using h
  | cons b bs ih =>
    have hlow : (b &&& 0x3f).toNat < 64 := by
      rw [UInt8.toNat_and]
      exact Nat.and_lt_two_pow (n := 6) _ (by decide)
    have hnext : bits * 64 + (b &&& 0x3f).toNat < bound * 64 := by omega
    rw [length_cons, Nat.pow_succ, Nat.mul_comm (64 ^ bs.length), ← Nat.mul_assoc]
    exact ih hnext

/-- What a first byte says about its sequence. -/
theorem leadingByte_spec {b : UInt8} {length bits : Nat} (h : leadingByte b = some (length, bits)) :
    (length = 1 ∧ bits < 0x80) ∨ (length = 2 ∧ bits < 0x20) ∨ (length = 3 ∧ bits < 0x10) ∨ length = 4 := by
  unfold leadingByte at h
  split_ifs at h with h1 h2 h3 h4
  · cases h
    exact .inl ⟨rfl, by simpa [UInt8.lt_iff_toNat_lt] using h1⟩
  · cases h
    refine .inr (.inl ⟨rfl, ?_⟩)
    rw [UInt8.toNat_and]
    exact Nat.and_lt_two_pow (n := 5) _ (by decide)
  · cases h
    refine .inr (.inr (.inl ⟨rfl, ?_⟩))
    rw [UInt8.toNat_and]
    exact Nat.and_lt_two_pow (n := 4) _ (by decide)
  · cases h
    exact .inr (.inr (.inr rfl))

/-- A sequence is as long as its character, at least. -/
theorem decodeSequence_spec {data : Bytes} (h : decodeSequence data = some (c, n)) :
    c.utf8Size ≤ n ∧ n ≤ data.length := by
  unfold decodeSequence at h
  split at h
  · cases h
  · next length bits hlead =>
    obtain ⟨b, -, hb⟩ := Option.bind_eq_some_iff.mp hlead
    split at h
    · cases h
    · next hlength =>
      dsimp only at h
      split at h
      · cases h
      · cases h
        refine ⟨?_, by omega⟩
        obtain ⟨rest, hrest⟩ : ∃ rest, rest = Bytes.subarray data 1 n := ⟨_, rfl⟩
        have hcount : rest.length = n - 1 := by
          rw [hrest, Bytes.subarray, length_drop, length_take]
          omega
        rw [← hrest]
        have hle := toNat_ofNat_le (rest.foldl (fun cp b => cp * 64 + (b &&& 0x3f).toNat) bits)
        rcases leadingByte_spec hb with ⟨rfl, hbits⟩ | ⟨rfl, hbits⟩ | ⟨rfl, hbits⟩ | rfl
        · have hlt := foldl_bits_lt rest hbits
          rw [hcount] at hlt
          exact (utf8Size_le (Nat.lt_of_le_of_lt hle hlt)).1 (by decide)
        · have hlt := foldl_bits_lt rest hbits
          rw [hcount] at hlt
          exact (utf8Size_le (Nat.lt_of_le_of_lt hle hlt)).2.1 (by decide)
        · have hlt := foldl_bits_lt rest hbits
          rw [hcount] at hlt
          exact (utf8Size_le (Nat.lt_of_le_of_lt hle hlt)).2.2 (by decide)
        · exact Char.utf8Size_le_four _

theorem encoded_nil : encoded [] = [] := rfl

theorem encoded_append (cs ds : List Char) : encoded (cs ++ ds) = encoded cs ++ encoded ds := by
  simp [encoded, utf8]

theorem length_encoded_cons (c : Char) (cs : List Char) :
    (encoded (c :: cs)).length = c.utf8Size + (encoded cs).length := by
  simp [encoded, utf8]

theorem length_encoded_decodeFrom_le (fuel : Nat) (data : Bytes) :
    (encoded (decodeFrom fuel data)).length ≤ data.length := by
  induction fuel generalizing data with
  | zero => simp [decodeFrom, encoded_nil]
  | succ fuel ih =>
    cases data with
    | nil => simp [decodeFrom, encoded_nil]
    | cons b rest =>
      rw [decodeFrom]
      split
      · next c n hsequence =>
        obtain ⟨hsize, hle⟩ := decodeSequence_spec hsequence
        have hrest := ih ((b :: rest).drop n)
        rw [length_drop] at hrest
        rw [length_encoded_cons]
        omega
      · have hrest := ih rest
        rw [length_cons]
        omega

/-- Decoding drops bytes only. -/
theorem length_encoded_decodeUtf8Ignore_le (data : Bytes) :
    (encoded (decodeUtf8Ignore data).toList).length ≤ data.length := by
  rw [decodeUtf8Ignore, String.toList_ofList]
  exact length_encoded_decodeFrom_le _ _

/-! ## The size of the result -/

/-- The lines that stay fit, unless the opener is gone. -/
theorem fits_keptLines {fits : Nat → Bool} {opener : Nat} (h : opener < keptLines fits opener n) :
    fits (keptLines fits opener n) = true := by
  induction n with
  | zero => exact absurd h (Nat.not_lt_zero _)
  | succ n ih =>
    rw [keptLines] at h ⊢
    split at h
    · next hdrop =>
      rw [if_pos hdrop]
      exact ih h
    · next hkeep =>
      rw [if_neg hkeep]
      simpa [h] using hkeep

theorem joinLines_cons_cons (line line' : List Char) (lines : List (List Char)) :
    joinLines (line :: line' :: lines) = line ++ '\n' :: joinLines (line' :: lines) := by
  simp [joinLines]

theorem joinLines_take_prefix (lines : List (List Char)) (n : Nat) :
    joinLines (lines.take n) <+: joinLines lines := by
  induction lines generalizing n with
  | nil => simp [joinLines]
  | cons line lines ih =>
    cases n with
    | zero => exact nil_prefix
    | succ n =>
      cases lines with
      | nil => simp [joinLines]
      | cons line' lines =>
        cases n with
        | zero => exact ⟨'\n' :: joinLines (line' :: lines), by simp [joinLines]⟩
        | succ n =>
          obtain ⟨rest, hrest⟩ := ih (n + 1)
          refine ⟨rest, ?_⟩
          rw [take_succ_cons] at hrest
          rw [take_succ_cons, take_succ_cons, joinLines_cons_cons, joinLines_cons_cons, ← hrest]
          simp

theorem length_encoded_take_le (lines : List (List Char)) (n : Nat) :
    (encoded (joinLines (lines.take n))).length ≤ (encoded (joinLines lines)).length := by
  obtain ⟨rest, hrest⟩ := joinLines_take_prefix lines n
  rw [← hrest, encoded_append, length_append]
  omega

/-- The text fits with the marker, if the lines do. -/
theorem length_closedText_le {lines : List (List Char)} {suffix : Bytes}
    (h : ((encoded (joinLines lines)).length : ℚ) + suffix.length ≤ max) :
    ((encoded (closedText lines suffix max)).length : ℚ) + suffix.length ≤ max := by
  unfold closedText
  dsimp only
  split
  · exact h
  · split
    · next hkept =>
      have hfits := fits_keptLines hkept
      rw [decide_eq_true_eq] at hfits
      rw [encoded_append, length_append, Nat.cast_add]
      exact hfits
    · refine le_trans ?_ h
      gcongr
      exact length_encoded_take_le lines _

theorem length_cutClean_le (hmax : 0 ≤ max) (marker : String) :
    ((cutClean src max marker).length : ℚ) ≤ max := by
  unfold cutClean
  dsimp only
  split
  · rw [length_replicate]
    exact (Nat.floor_le (le_min hmax (by norm_num))).trans (min_le_left _ _)
  · next hsuffix =>
    rw [not_lt] at hsuffix
    rw [length_append, Nat.cast_add]
    apply length_closedText_le
    rw [joinLines, intercalate_splitOn]
    obtain ⟨clip, hclip⟩ : ∃ clip, clip = src.take ⌊max - (utf8 ("\n" ++ marker ++ "\n")).length⌋₊ := ⟨_, rfl⟩
    rw [← hclip]
    have htext := length_encoded_decodeUtf8Ignore_le (clip.take (lineEnd clip))
    have hlength : clip.length ≤ ⌊max - (utf8 ("\n" ++ marker ++ "\n")).length⌋₊ := by
      rw [hclip]
      exact length_take_le _ _
    have htake : (clip.take (lineEnd clip)).length ≤ clip.length := length_take_le' _ _
    have hfloor : ((⌊max - (utf8 ("\n" ++ marker ++ "\n")).length⌋₊ : ℕ) : ℚ) ≤
        max - (utf8 ("\n" ++ marker ++ "\n")).length := Nat.floor_le (by linarith)
    have hle : ((encoded (decodeUtf8Ignore (clip.take (lineEnd clip))).toList).length : ℚ) ≤
        (⌊max - (utf8 ("\n" ++ marker ++ "\n")).length⌋₊ : ℕ) := Nat.cast_le.mpr (by omega)
    linarith

/-- The result is never longer than the budget. -/
theorem length_truncateClean_le (hmax : 0 ≤ max) (marker : String) :
    ((truncateClean src max marker).length : ℚ) ≤ max := by
  change ((if (src.length : ℚ) ≤ max then src else cutClean src max marker).length : ℚ) ≤ max
  split
  · next hfits => exact hfits
  · exact length_cutClean_le hmax marker

/-- A section that was cut ends with the marker's line, when that fits. -/
theorem truncateClean_getLast {max : Budget} {marker : String}
    (hmax : (((utf8 ("\n" ++ marker ++ "\n")).length : ℚ) : Budget) ≤ max) :
    truncateClean src max marker = src ∨ (truncateClean src max marker).getLast? = some Bytes.nl := by
  unfold truncateClean
  split
  · exact .inl rfl
  · next max =>
    split
    · exact .inl rfl
    · right
      have hsuffix : ¬max < (utf8 ("\n" ++ marker ++ "\n")).length := by
        rw [not_lt]
        exact WithTop.coe_le_coe.mp hmax
      unfold cutClean
      dsimp only
      rw [if_neg hsuffix, List.getLast?_append]
      have hlast : (utf8 ("\n" ++ marker ++ "\n")).getLast? = some Bytes.nl := by
        have hnl : utf8 "\n" = [Bytes.nl] := rfl
        have happend : utf8 ("\n" ++ marker ++ "\n") = utf8 ("\n" ++ marker) ++ utf8 "\n" := by simp [utf8]
        rw [happend, hnl, List.getLast?_concat]
      rw [hlast]
      rfl

end PrReviewer.Corpus
