import PrReviewer.Js.Encoded
import PrReviewer.Model.Compaction

/-!
# What truncation keeps

`CutsWell` is the contract of `truncateText`: within the limit, a start of the text, up to a line end where the cut
part has one, and `truncated` if and only if something was cut. A limit inside a character leaves a replacement
character, which is no part of the text or too long, unless the cut goes to a line end. A second truncation with the
same limit leaves every result but a discarded skill whose marker, with its path, is over the limit: the marker is no
JSON, so the path is lost.
-/

open Js List

namespace PrReviewer.Model

/-- What `truncateText` returns as `truncated`. -/
def isTruncated (text : String) (maxBytes : Nat) : Bool := maxBytes = 0 || maxBytes < (utf8 text).length

structure CutsWell (text : String) (maxBytes : Nat) : Prop where
  bounded : (utf8 (truncateText text maxBytes)).length ≤ maxBytes
  start : (truncateText text maxBytes).toList <+: text.toList
  lineEnd : maxBytes < (utf8 text).length → Bytes.nl ∈ ((utf8 text).take maxBytes).tail →
    (truncateText text maxBytes).toList ++ ['\n'] <+: text.toList
  truncated : isTruncated text maxBytes = true ↔ truncateText text maxBytes ≠ text
  again : truncateText (truncateText text maxBytes) maxBytes = truncateText text maxBytes

/-- The bytes of characters. -/
def size (cs : List Char) : Nat := (cs.map Char.utf8Size).sum

/-- The characters that the first `n` bytes hold whole. -/
def wholeChars : Nat → List Char → List Char
  | _, [] => []
  | n, c :: cs => if c.utf8Size ≤ n then c :: wholeChars (n - c.utf8Size) cs else []

/-- Byte `n` is inside a character. -/
def Splits (n : Nat) (cs : List Char) : Prop := size (wholeChars n cs) < n ∧ n < size cs

instance (n : Nat) (cs : List Char) : Decidable (Splits n cs) := inferInstanceAs (Decidable (_ ∧ _))

/-- The limit is not that of an empty text to 0 bytes, and it is inside a character only where there is a line end to
go back to. -/
def CutsBetween (text : String) (maxBytes : Nat) : Prop :=
  (maxBytes = 0 → text ≠ "") ∧
    (Splits maxBytes text.toList → Bytes.nl ∈ ((utf8 text).take maxBytes).tail)

/-- A second truncation with the limit shortens nothing. -/
structure Settles (c : Conversation) (maxBytes : Nat) : Prop where
  none : (c.truncateOldestToolResults maxBytes).shrunk maxBytes = 0
  contents : ((c.truncateOldestToolResults maxBytes).truncateOldestToolResults maxBytes).contents =
    (c.truncateOldestToolResults maxBytes).contents

/-- The path in the result of a skill. -/
def skillPath (serialized : String) : String :=
  (((Json.parse serialized).map fun parsed => parsed.get "path").bind Value.string?).getD ""

/-- The skill is discarded under its path, and the marker is over the limit. -/
def LongMarker (maxBytes : Nat) (r : ToolResultEvent) : Prop :=
  r.tool = "read_skill" ∧ maxBytes < (utf8 r.content).length ∧ skillPath r.content ≠ "" ∧
    maxBytes < (utf8 (repositorySkillDiscardMarker r.content)).length

/-! ## Bytes of characters -/

variable {n : Nat} {cs front : List Char} {c : Char} {text : String}

theorem size_cons : size (c :: cs) = c.utf8Size + size cs := by rw [size, map_cons, sum_cons, size]

theorem size_append : size (front ++ cs) = size front + size cs := by
  rw [size, map_append, sum_append, size, size]

theorem length_utf8 (text : String) : (utf8 text).length = size text.toList := by
  rw [utf8, length_flatMap, size]
  simp only [String.length_utf8EncodeChar]

theorem length_utf8_ofList (cs : List Char) : (utf8 (String.ofList cs)).length = size cs := by
  rw [length_utf8, String.toList_ofList]

theorem isPrefix_wholeChars (n : Nat) (cs : List Char) : wholeChars n cs <+: cs := by
  induction cs generalizing n with
  | nil => exact nil_prefix
  | cons c cs ih =>
    rw [wholeChars]
    split
    · exact prefix_cons_inj c |>.mpr (ih _)
    · exact nil_prefix

theorem size_wholeChars_le (n : Nat) (cs : List Char) : size (wholeChars n cs) ≤ n := by
  induction cs generalizing n with
  | nil => exact Nat.zero_le n
  | cons c cs ih =>
    rw [wholeChars]
    split
    · have := ih (n - c.utf8Size)
      rw [size_cons]
      omega
    · exact Nat.zero_le n

/-- A character that does not fit is left out. -/
theorem wholeChars_append (h : size front ≤ n) (hc : n < size front + c.utf8Size) :
    wholeChars n (front ++ [c]) = front := by
  induction front generalizing n with
  | nil => rw [nil_append, wholeChars, if_neg (by simpa [size] using hc)]
  | cons d front ih =>
    rw [size_cons] at h hc
    rw [cons_append, wholeChars, if_pos (by omega), ih (by omega) (by omega)]

theorem splits_cons (h : c.utf8Size ≤ n) : Splits n (c :: cs) ↔ Splits (n - c.utf8Size) cs := by
  rw [Splits, Splits, wholeChars, if_pos h, size_cons, size_cons]
  omega

/-- What would go on behind the whole characters is over the limit. -/
theorem lt_of_splits (hs : Splits n cs) (hc : wholeChars n cs ++ [c] <+: cs) :
    n < size (wholeChars n cs) + c.utf8Size := by
  induction cs generalizing n with
  | nil => simp [wholeChars] at hc
  | cons d cs ih =>
    by_cases hd : d.utf8Size ≤ n
    · rw [wholeChars, if_pos hd, cons_append, prefix_cons_inj] at hc
      have := ih ((splits_cons hd).mp hs) hc
      rw [wholeChars, if_pos hd, size_cons]
      omega
    · rw [wholeChars, if_neg hd, nil_append] at hc
      obtain rfl := (cons_prefix_cons.mp hc).1
      rw [wholeChars, if_neg hd]
      exact Nat.lt_of_lt_of_le (Nat.lt_of_not_le hd) (Nat.le_add_left _ _)

theorem clipUtf8_eq (n : Nat) (cs : List Char) :
    clipUtf8 n cs = wholeChars n cs ++ if Splits n cs then [Char.ofNat 0xFFFD] else [] := by
  induction cs generalizing n with
  | nil => simp [clipUtf8, wholeChars, Splits, size]
  | cons c cs ih =>
    have hpos := Char.utf8Size_pos c
    rw [clipUtf8, wholeChars]
    by_cases hc : c.utf8Size ≤ n
    · rw [if_neg (by omega), if_pos hc, if_pos hc, ih, cons_append]
      simp only [splits_cons hc]
    · rw [if_neg hc, if_neg hc, nil_append]
      by_cases hn : n = 0
      · rw [if_pos hn, if_neg fun hs => by
          have := hs.1
          omega]
      · have hs : Splits n (c :: cs) := by
          rw [Splits, wholeChars, if_neg hc, size_cons]
          exact ⟨Nat.pos_of_ne_zero hn, by omega⟩
        rw [if_neg hn, if_pos hs]

/-- Only a line feed has its byte. -/
theorem nl_mem_encode : Bytes.nl ∈ String.utf8EncodeChar c ↔ c = '\n' := by
  refine ⟨fun h => ?_, fun h => by rw [h]; decide⟩
  have hvalid : c.toNat < 0xD800 ∨ 0xDFFF < c.toNat ∧ c.toNat < 0x110000 := c.valid
  have hpoint : utf8Point c.toNat = String.utf8EncodeChar c := by
    have hs : isSurrogate c.toNat = false := by
      simp [isSurrogate]
      omega
    rw [utf8Point, hs, if_neg Bool.false_ne_true, Char.ofNat_toNat]
  rw [← hpoint] at h
  by_cases hc : c.toNat < 0x80
  · rw [utf8Point_of_lt hc, mem_singleton] at h
    have hnl := congrArg UInt8.toNat h
    rw [UInt8.toNat_ofNat', Nat.mod_eq_of_lt (by omega)] at hnl
    exact Char.toNat_inj.mp hnl.symm
  · have := le_of_mem_utf8Point (Nat.le_of_not_lt hc) (by omega) h
    exact absurd this (by decide)

/-- A line feed among the first bytes is one of the characters that they hold. -/
theorem nl_mem_take (n : Nat) (cs : List Char) :
    Bytes.nl ∈ (cs.flatMap String.utf8EncodeChar).take n ↔ '\n' ∈ wholeChars n cs := by
  induction cs generalizing n with
  | nil => simp [wholeChars]
  | cons c cs ih =>
    have hlength := String.length_utf8EncodeChar c
    rw [flatMap_cons, take_append, mem_append, hlength, wholeChars]
    by_cases hc : c.utf8Size ≤ n
    · rw [if_pos hc, take_of_length_le (by omega), nl_mem_encode, ih, mem_cons, eq_comm]
    · rw [if_neg hc, Nat.sub_eq_zero_of_le (by omega), take_zero]
      refine iff_of_false (fun h => ?_) not_mem_nil
      have hnl := mem_of_mem_take (h.resolve_right not_mem_nil)
      rw [nl_mem_encode] at hnl
      subst hnl
      obtain rfl : n = 0 := Nat.lt_one_iff.mp (Nat.lt_of_not_le hc)
      simp at h

theorem nl_mem_tail (n : Nat) (cs : List Char) :
    Bytes.nl ∈ ((cs.flatMap String.utf8EncodeChar).take n).tail ↔ '\n' ∈ (wholeChars n cs).tail := by
  cases cs with
  | nil => simp [wholeChars]
  | cons c cs =>
    have hlength := String.length_utf8EncodeChar c
    have hpos := Char.utf8Size_pos c
    rw [flatMap_cons, take_append, hlength, wholeChars]
    by_cases hc : c.utf8Size ≤ n
    · obtain ⟨b, bs, hb⟩ := exists_cons_of_length_pos (l := String.utf8EncodeChar c) (by omega)
      rw [if_pos hc, take_of_length_le (by omega), tail_cons, ← nl_mem_take, hb, cons_append,
        tail_cons, mem_append]
      refine ⟨fun h => h.resolve_left fun hbs => ?_, .inr⟩
      obtain rfl := nl_mem_encode.mp (hb ▸ mem_cons_of_mem b hbs)
      have hnil : bs = [] := length_eq_zero_iff.mp (by
        have := congrArg List.length hb
        rw [hlength, length_cons] at this
        exact Nat.succ.inj this.symm)
      rw [hnil] at hbs
      exact not_mem_nil hbs
    · rw [if_neg hc, Nat.sub_eq_zero_of_le (by omega), take_zero, append_nil, tail_nil]
      refine iff_of_false (fun h => ?_) not_mem_nil
      obtain rfl := nl_mem_encode.mp (mem_of_mem_take (mem_of_mem_tail h))
      obtain rfl : n = 0 := Nat.lt_one_iff.mp (Nat.lt_of_not_le hc)
      simp at h

/-! ## The cut -/

theorem rdropWhile_line {line rest : List Char} (h : '\n' ∉ rest) :
    (line ++ '\n' :: rest).rdropWhile (· ≠ '\n') = line ++ ['\n'] := by
  induction rest using List.reverseRecOn with
  | nil => exact rdropWhile_concat_neg _ _ _ (by simp)
  | append_singleton rest x ih =>
    have hx : x ≠ '\n' := fun hx => h (by simp [hx])
    rw [← cons_append, ← append_assoc, rdropWhile_concat_pos _ _ _ (by simpa using hx)]
    exact ih fun hrest => h (mem_append_left _ hrest)

theorem rdropWhile_inline (h : '\n' ∉ cs.tail) : (cs.rdropWhile (· ≠ '\n')).dropLast = [] := by
  cases cs with
  | nil => rfl
  | cons c cs =>
    rw [tail_cons] at h
    by_cases hc : c = '\n'
    · have hcut := @rdropWhile_line [] _ h
      rw [nil_append, nil_append] at hcut
      rw [hc, hcut]
      rfl
    · rw [rdropWhile_eq_nil_iff.mpr]
      · rfl
      · intro x hx
        rcases mem_cons.mp hx with rfl | hx
        · simpa using hc
        · simpa using fun hxc : x = '\n' => h (hxc ▸ hx)

theorem truncateText_zero : truncateText text 0 = "" := if_pos rfl

theorem truncateText_short (hn : n ≠ 0) (h : size text.toList ≤ n) : truncateText text n = text := by
  rw [truncateText, if_neg hn, if_pos (by rwa [length_utf8])]

/-- A text whose last line end within the limit is not its first character is cut there. -/
theorem truncateText_line {line rest : List Char} (h : n < size text.toList)
    (hw : wholeChars n text.toList = line ++ '\n' :: rest) (hline : line ≠ []) (hrest : '\n' ∉ rest) :
    truncateText text n = String.ofList (if line.getLast? = some '\n' then line.dropLast else line) := by
  have hn : n ≠ 0 := by
    rintro rfl
    have := size_wholeChars_le 0 text.toList
    have hpos := Char.utf8Size_pos '\n'
    rw [hw, size_append, size_cons] at this
    omega
  have hclip : (clipUtf8 n text.toList).rdropWhile (· ≠ '\n') = line ++ ['\n'] := by
    rw [clipUtf8_eq, hw, append_assoc, cons_append]
    refine rdropWhile_line fun hmem => hrest ((mem_append.mp hmem).resolve_right fun hmark => ?_)
    split at hmark <;> revert hmark <;> decide
  rw [truncateText, if_neg hn, if_neg (by rw [length_utf8]; omega)]
  dsimp only
  rw [hclip, dropLast_concat, if_neg hline]

/-- A text with no line end to go back to is cut at the limit. -/
theorem truncateText_inline (hn : n ≠ 0) (h : n < size text.toList)
    (hline : '\n' ∉ (wholeChars n text.toList).tail) :
    truncateText text n = String.ofList (clipUtf8 n text.toList) := by
  have htail : '\n' ∉ (clipUtf8 n text.toList).tail := by
    have hmark : '\n' ∉ if Splits n text.toList then [Char.ofNat 0xFFFD] else [] := by
      split <;> decide
    rw [clipUtf8_eq]
    intro hmem
    cases hw : wholeChars n text.toList with
    | nil =>
      rw [hw] at hmem
      exact hmark (mem_of_mem_tail hmem)
    | cons c front =>
      rw [hw] at hmem hline
      exact (mem_append.mp hmem).elim hline hmark
  rw [truncateText, if_neg hn, if_neg (by rw [length_utf8]; omega)]
  dsimp only
  rw [rdropWhile_inline htail, if_pos rfl]

/-- What is kept before a line end goes on with it. -/
theorem kept_line {line rest : List Char} :
    (if line.getLast? = some '\n' then line.dropLast else line) ++ ['\n'] <+: line ++ '\n' :: rest := by
  split
  · next hlast =>
    obtain ⟨front, rfl⟩ := List.getLast?_eq_some_iff.mp hlast
    rw [dropLast_concat]
    exact prefix_append _ _
  · exact ⟨rest, by simp⟩

/-- The last line feed among characters. -/
theorem exists_line (h : '\n' ∈ cs.tail) : ∃ line rest, cs = line ++ '\n' :: rest ∧ line ≠ [] ∧ '\n' ∉ rest := by
  cases cs with
  | nil => cases h
  | cons c cs =>
    obtain ⟨rest, line, hcs, hrest⟩ := eq_append_cons_of_mem (mem_reverse.mpr h)
    refine ⟨c :: line.reverse, rest.reverse, ?_, cons_ne_nil _ _, by simpa using hrest⟩
    have := congrArg List.reverse hcs
    rw [tail_cons, reverse_reverse] at this
    rw [this]
    simp

/-- Cut within the limit and again, a text stays as it is. -/
theorem truncateText_again (text : String) (n : Nat) : truncateText (truncateText text n) n = truncateText text n := by
  by_cases hn : n = 0
  · rw [hn, truncateText_zero, truncateText_zero]
  by_cases hshort : size text.toList ≤ n
  · rw [truncateText_short hn hshort, truncateText_short hn hshort]
  by_cases hline : '\n' ∈ (wholeChars n text.toList).tail
  · obtain ⟨line, rest, hw, hne, hrest⟩ := exists_line hline
    rw [truncateText_line (Nat.lt_of_not_le hshort) hw hne hrest]
    refine truncateText_short hn ?_
    obtain ⟨behind, hbehind⟩ := @kept_line line rest
    have hsize := size_wholeChars_le n text.toList
    rw [hw, ← hbehind, size_append, size_append] at hsize
    rw [String.toList_ofList]
    omega
  · rw [truncateText_inline hn (Nat.lt_of_not_le hshort) hline, clipUtf8_eq]
    have hsize := size_wholeChars_le n text.toList
    split
    · next hs =>
      by_cases hfits : size (wholeChars n text.toList ++ [Char.ofNat 0xFFFD]) ≤ n
      · exact truncateText_short hn (by rwa [String.toList_ofList])
      · have hlt := Nat.lt_of_not_le hfits
        rw [size_append, size_cons] at hlt
        have hwhole := wholeChars_append (c := Char.ofNat 0xFFFD) hsize (by simpa [size] using hlt)
        rw [truncateText_inline hn (by rwa [String.toList_ofList, ← Nat.not_le]) (by rwa [String.toList_ofList, hwhole]),
          String.toList_ofList, clipUtf8_eq, hwhole, if_pos]
        rw [Splits, hwhole]
        exact ⟨hs.1, Nat.lt_of_not_le hfits⟩
    · rw [append_nil]
      exact truncateText_short hn (by rwa [String.toList_ofList])

/-- A cut text is short, a part and not all of the text. -/
theorem cutsWell_of_kept (h : n < size text.toList) (hfits : size (truncateText text n).toList ≤ n)
    (hstart : (truncateText text n).toList <+: text.toList)
    (hline : Bytes.nl ∈ ((utf8 text).take n).tail → (truncateText text n).toList ++ ['\n'] <+: text.toList) :
    CutsWell text n where
  bounded := by rwa [length_utf8]
  start := hstart
  lineEnd := fun _ => hline
  truncated := by
    refine iff_of_true (by simp [isTruncated, length_utf8, h]) fun hsame => ?_
    rw [hsame] at hfits
    omega
  again := truncateText_again text n

theorem cutsWell_iff (text : String) (n : Nat) : CutsWell text n ↔ CutsBetween text n := by
  by_cases hn : n = 0
  · subst hn
    constructor
    · intro h
      refine ⟨fun _ => ?_, fun hs => absurd hs.1 (Nat.not_lt_zero _)⟩
      have := h.truncated.mp rfl
      rw [truncateText_zero] at this
      exact this.symm
    · intro h
      refine ⟨?_, ?_, fun _ hnl => by simp at hnl, iff_of_true rfl ?_, truncateText_again text 0⟩ <;> rw [truncateText_zero]
      · exact Nat.le_refl 0
      · exact nil_prefix
      · exact (h.1 rfl).symm
  by_cases hshort : size text.toList ≤ n
  · refine iff_of_true ⟨?_, ?_, fun h => ?_, iff_of_false ?_ ?_, truncateText_again text n⟩
      ⟨fun h => absurd h hn, fun hs => absurd hs.2 (Nat.not_lt.mpr hshort)⟩
    · rwa [truncateText_short hn hshort, length_utf8]
    · rw [truncateText_short hn hshort]
    · rw [length_utf8] at h
      omega
    · simp [isTruncated, hn, length_utf8, hshort]
    · rw [truncateText_short hn hshort]
      exact fun h => h rfl
  have hlong := Nat.lt_of_not_le hshort
  have hsize := size_wholeChars_le n text.toList
  by_cases hnl : Bytes.nl ∈ ((utf8 text).take n).tail
  · obtain ⟨line, rest, hw, hne, hrest⟩ := exists_line ((nl_mem_tail n _).mp hnl)
    have hkept := truncateText_line hlong hw hne hrest
    have hline : (truncateText text n).toList ++ ['\n'] <+: wholeChars n text.toList := by
      rw [hkept, String.toList_ofList, hw]
      exact kept_line
    have hcut := (prefix_append _ _).trans hline
    obtain ⟨behind, hbehind⟩ := id hcut
    rw [← hbehind, size_append] at hsize
    exact iff_of_true (cutsWell_of_kept hlong (by omega) (hcut.trans (isPrefix_wholeChars n _))
      fun _ => hline.trans (isPrefix_wholeChars n _)) ⟨fun h => absurd h hn, fun _ => hnl⟩
  · have hkept := truncateText_inline hn hlong fun h => hnl ((nl_mem_tail n _).mpr h)
    rw [clipUtf8_eq] at hkept
    by_cases hs : Splits n text.toList
    · rw [if_pos hs] at hkept
      refine iff_of_false (fun h => ?_) fun h => hnl (h.2 hs)
      have hbound := h.bounded
      have hstart := h.start
      rw [hkept, length_utf8_ofList, size_append, size_cons] at hbound
      rw [hkept, String.toList_ofList] at hstart
      have := lt_of_splits hs hstart
      omega
    · rw [if_neg hs, append_nil] at hkept
      refine iff_of_true (cutsWell_of_kept hlong ?_ ?_ fun h => absurd h hnl)
        ⟨fun h => absurd h hn, fun h => absurd h hs⟩ <;> rw [hkept, String.toList_ofList]
      · exact hsize
      · exact isPrefix_wholeChars n _

/-! ## Results -/

/-- What the marker of a skill says of its path. -/
def discardSuffix (path : String) : String := if path ≠ "" then " (" ++ path ++ ")" else ""

theorem exists_repositorySkillDiscardMarker : ∃ behind, ∀ serialized,
    repositorySkillDiscardMarker serialized = "[repository skill" ++ discardSuffix (skillPath serialized) ++ behind :=
  ⟨_, fun _ => String.append_assoc⟩

/-- A marker is no JSON. -/
theorem parse_of_bracket {rest : List Char} (h : text.toList = '[' :: 'r' :: rest) : Json.parse text = none := by
  have hscalar : Json.scalar ('r' :: rest) = none := rfl
  rw [Json.parse, h, length_cons, length_cons, Json.value, Json.skip_cons (by decide)]
  dsimp only
  rw [if_neg (by decide), if_pos rfl, if_neg (by rw [Json.skip_cons (by decide)]; simp), Json.elements,
    Json.value_scalar _ (by decide), hscalar]
  rfl

/-- So a marker names no path, and what stands for it says nothing of one. -/
theorem marker_again_iff (serialized : String) :
    repositorySkillDiscardMarker (repositorySkillDiscardMarker serialized) = repositorySkillDiscardMarker serialized ↔
      skillPath serialized = "" := by
  obtain ⟨behind, hmarker⟩ := exists_repositorySkillDiscardMarker
  have hopen : "[repository skill".toList = '[' :: 'r' :: "epository skill".toList := by decide +kernel
  have hpath : skillPath (repositorySkillDiscardMarker serialized) = "" := by
    have hparse : Json.parse (repositorySkillDiscardMarker serialized) = none := by
      rw [hmarker, String.append_assoc]
      exact parse_of_bracket (by rw [String.toList_append, hopen]; rfl)
    rw [skillPath, hparse]
    rfl
  rw [hmarker, hpath, hmarker serialized, String.append_left_inj, String.append_right_inj]
  by_cases hne : skillPath serialized = ""
  · rw [hne]
    exact iff_of_true rfl rfl
  · refine iff_of_false (fun h => ?_) hne
    rw [discardSuffix, discardSuffix, if_pos hne, if_neg (not_not.mpr rfl)] at h
    have hlength := congrArg String.length h
    rw [String.length_append, String.length_append, show " (".length = 2 by decide, String.length_empty] at hlength
    omega

open Conversation

theorem content_truncateResult (n : Nat) (r : ToolResultEvent) : (truncateResult n r).content =
    if (utf8 r.content).length ≤ n then r.content
    else if r.tool = "read_skill" then repositorySkillDiscardMarker r.content else truncateText r.content n := by
  unfold truncateResult
  split_ifs <;> rfl

theorem tool_truncateResult (n : Nat) (r : ToolResultEvent) : (truncateResult n r).tool = r.tool := by
  unfold truncateResult
  split_ifs <;> rfl

theorem truncateResult_again (n : Nat) (r : ToolResultEvent) :
    (truncateResult n (truncateResult n r)).content = (truncateResult n r).content ↔ ¬LongMarker n r := by
  rw [content_truncateResult n (truncateResult n r), tool_truncateResult, content_truncateResult]
  by_cases hshort : (utf8 r.content).length ≤ n
  · rw [if_pos hshort, if_pos hshort]
    exact iff_of_true rfl fun h => absurd h.2.1 (Nat.not_lt.mpr hshort)
  by_cases hskill : r.tool = "read_skill"
  · rw [if_neg hshort, if_pos hskill, if_pos hskill]
    split
    · next hm => exact iff_of_true rfl fun h => absurd h.2.2.2 (Nat.not_lt.mpr hm)
    · next hm =>
      rw [marker_again_iff, LongMarker]
      simp [hskill, Nat.lt_of_not_le hshort, Nat.lt_of_not_le hm]
  · rw [if_neg hshort, if_neg hskill, if_neg hskill]
    refine iff_of_true ?_ fun h => hskill h.1
    split
    · rfl
    · exact truncateText_again _ n

theorem settles_iff (c : Conversation) (n : Nat) : Settles c n ↔ ∀ p ∈ c.toolResults, ¬LongMarker n p.2 := by
  have hcontents : ((c.truncateOldestToolResults n).truncateOldestToolResults n).contents =
      (c.truncateOldestToolResults n).contents ↔ ∀ p ∈ c.toolResults, ¬LongMarker n p.2 := by
    simp only [← truncateResult_again]
    refine Iff.trans contents_eq_iff ?_
    rw [truncateOldestToolResults, toolResults_rewriteResults, forall_mem_map]
    rfl
  constructor
  · exact fun h => hcontents.mp h.contents
  · intro h
    refine ⟨?_, hcontents.mpr h⟩
    rw [shrunk, countP_eq_zero, truncateOldestToolResults, toolResults_rewriteResults, forall_mem_map]
    intro p hp
    rw [decide_eq_true_eq, not_not]
    exact (truncateResult_again n p.2).mpr (h p hp)

/-- **Truncation**: a text is cut well exactly when its limit is not inside a character of a line that has to be cut,
and a second truncation of a conversation shortens nothing exactly when no marker with a path is over the limit. -/
theorem truncation_iff (text : String) (c : Conversation) (maxBytes : Nat) :
    (CutsWell text maxBytes ↔ CutsBetween text maxBytes) ∧
      (Settles c maxBytes ↔ ∀ p ∈ c.toolResults, ¬LongMarker maxBytes p.2) :=
  ⟨cutsWell_iff text maxBytes, settles_iff c maxBytes⟩

/-- The first byte of a character of two bytes. -/
theorem cut_inside_character :
    ¬ ((∀ text maxBytes, CutsWell text maxBytes) ∧ ∀ c maxBytes, Settles c maxBytes) := by
  intro h
  have hbound := (h.1 "é" 1).bounded
  revert hbound
  decide +kernel

end PrReviewer.Model
