import PrReviewer.Corpus.Decode

/-!
# A cut section ends outside any fence

What `truncateClean` leaves of a section: whole lines of it, decoded, and the delimiter of a fence that is open there
(`truncateClean_exact`).

- The fence that is open behind lines is open behind every line since its opener, and none is open in front of that
  (`scanFences_take`).
-/

open Js List

namespace PrReviewer.Corpus

/-! ## Fences -/

/-- The delimiter of a fence. -/
def IsDelimiter (fence : List Char) : Prop := ∃ c, (c = backtick ∨ c = '~') ∧ ∃ n, 3 ≤ n ∧ fence = List.replicate n c

theorem isDelimiter_openedFence {line : List Char} (h : openedFence line ≠ []) : IsDelimiter (openedFence line) := by
  have hrun : ∀ (c : Char) (cs : List Char), cs.takeWhile (· = c) = List.replicate (cs.takeWhile (· = c)).length c := by
    intro c cs
    rw [eq_replicate_iff]
    exact ⟨rfl, fun d hd => by simpa using mem_takeWhile_imp hd⟩
  unfold openedFence at h ⊢
  dsimp only at h ⊢
  split
  · next hticks => exact ⟨backtick, .inl rfl, _, hticks, hrun _ _⟩
  · next hticks =>
    rw [if_neg hticks] at h
    split
    · next htildes => exact ⟨'~', .inr rfl, _, htildes, hrun _ _⟩
    · next htildes => exact absurd (if_neg htildes) h

variable {lines : List (List Char)} {fence : List Char}

theorem nl_not_mem_delimiter (h : IsDelimiter fence) : '\n' ∉ fence := by
  obtain ⟨c, hc, n, -, rfl⟩ := h
  rw [mem_replicate]
  rintro ⟨-, rfl⟩
  revert hc
  decide

/-- A delimiter closes the fence that it opened. -/
theorem closesFence_self (h : IsDelimiter fence) : closesFence fence fence = true := by
  obtain ⟨c, hc, n, hn, rfl⟩ := h
  have hblank : isBlank c = false := by rcases hc with rfl | rfl <;> decide
  have hstripped : stripped (List.replicate n c) = List.replicate n c := by
    simp [stripped, List.rdropWhile, hblank]
  have hhead : (List.replicate n c).head? = some c := by
    rw [List.head?_replicate, if_neg (by omega)]
  rw [closesFence, hstripped, hhead]
  simp

theorem scanFences_append (lines : List (List Char)) (line : List Char) :
    scanFences (lines ++ [line]) = scanLine (scanFences lines) (line, lines.length) := by
  simp [scanFences, zipIdx_append]

/-- What is known of an open fence. -/
structure Open (lines : List (List Char)) (state : FenceState) : Prop where
  delimiter : IsDelimiter state.fence
  opener_lt : state.opener < lines.length
  closed : (scanFences (lines.take state.opener)).fence = []
  since : ∀ k, state.opener < k → scanFences (lines.take k) = state

theorem isOpen_scanFences (h : (scanFences lines).fence ≠ []) : Open lines (scanFences lines) := by
  induction lines using List.reverseRecOn with
  | nil => exact absurd rfl h
  | append_singleton lines line ih =>
    obtain ⟨state, hstate⟩ : ∃ state, state = scanFences lines := ⟨_, rfl⟩
    have hall : ∀ k, lines.length < k → scanFences ((lines ++ [line]).take k) = scanFences (lines ++ [line]) := by
      intro k hk
      rw [take_of_length_le]
      rw [length_append, length_singleton]
      omega
    rw [scanFences_append, ← hstate] at h hall ⊢
    rw [← hstate] at ih
    unfold scanLine at h hall ⊢
    dsimp only at h hall ⊢
    by_cases hopen : state.fence ≠ []
    · obtain ⟨hdelimiter, hlt, hclosed, hsince⟩ := ih hopen
      rw [if_pos hopen] at h hall ⊢
      split at h
      · exact absurd rfl h
      · next hcloses =>
        rw [if_neg hcloses] at hall ⊢
        refine ⟨hdelimiter, by rw [length_append]; omega, ?_, fun k hk => ?_⟩
        · rw [take_append_of_le_length hlt.le]
          exact hclosed
        · rcases Nat.lt_or_ge lines.length k with hlong | hshort
          · exact hall k hlong
          · rw [take_append_of_le_length hshort]
            exact hsince k hk
    · rw [if_neg hopen] at h hall ⊢
      split at h
      · next hopens =>
        rw [if_pos hopens] at hall ⊢
        refine ⟨isDelimiter_openedFence hopens, by simp, ?_, hall⟩
        rw [take_left, ← hstate]
        exact not_not.mp hopen
      · exact absurd h hopen

/-! ## The lines that stay -/

theorem keptLines_ge {fits : Nat → Bool} {opener n : Nat} (h : opener ≤ n) : opener ≤ keptLines fits opener n := by
  induction n with
  | zero => exact h
  | succ n ih =>
    rw [keptLines]
    split
    · next hdrop => exact ih (by omega)
    · exact h

theorem splitOn_joinLines (h : ∀ line ∈ lines, '\n' ∉ line) (hne : lines ≠ []) :
    (joinLines lines).splitOn '\n' = lines := splitOn_join h hne

/-- What stays of the lines, with the delimiter of a fence that is open there. -/
theorem closedText_eq (hlines : ∀ line ∈ lines, '\n' ∉ line) (hne : lines ≠ []) (suffix : Bytes) (max : ℚ) :
    ∃ kept closer, closedText lines suffix max = joinLines (lines.take kept) ++ closer ∧
      (closer = [] ∨ closer = '\n' :: (scanFences ((joinLines (lines.take kept)).splitOn '\n')).fence ∧
        IsDelimiter (scanFences ((joinLines (lines.take kept)).splitOn '\n')).fence) ∧
      (scanFences ((closedText lines suffix max).splitOn '\n')).fence = [] := by
  have hempty : scanFences [[]] = ⟨0, []⟩ := rfl
  have hkept : ∀ k, (scanFences ((joinLines (lines.take k)).splitOn '\n')).fence = (scanFences (lines.take k)).fence := by
    intro k
    rcases eq_or_ne (lines.take k) [] with hnil | hcons
    · rw [hnil]
      rfl
    · rw [splitOn_joinLines (fun line hline => hlines line (mem_of_mem_take hline)) hcons]
  unfold closedText
  dsimp only
  split
  · next hclosed =>
    refine ⟨lines.length, [], ?_, .inl rfl, ?_⟩
    · rw [take_length, append_nil]
    · rw [splitOn_joinLines hlines hne, hclosed]
  · next hopen =>
    obtain ⟨hdelimiter, hlt, hclosed, hsince⟩ := isOpen_scanFences hopen
    generalize hkeptLines : keptLines _ _ lines.length = kept
    split
    · next hafter =>
      refine ⟨kept, _, rfl, .inr ?_, ?_⟩
      · rw [hkept, hsince kept hafter]
        exact ⟨rfl, hdelimiter⟩
      · have hne' : lines.take kept ≠ [] := by
          intro hnil
          have := congrArg List.length hnil
          rw [length_take, length_nil] at this
          omega
        have htext : joinLines (lines.take kept) ++ '\n' :: (scanFences lines).fence =
            joinLines (lines.take kept ++ [(scanFences lines).fence]) := by
          rw [joinLines, joinLines, ← join, ← join, join_append hne' (by simp), join_singleton]
        rw [htext, splitOn_joinLines, scanFences_append, hsince kept hafter, scanLine, if_pos hopen,
          if_pos (closesFence_self hdelimiter)]
        · rw [forall_mem_append, forall_mem_singleton]
          exact ⟨fun line hline => hlines line (mem_of_mem_take hline), nl_not_mem_delimiter hdelimiter⟩
        · simp
    · next hbefore =>
      have hge : (scanFences lines).opener ≤ kept := by
        rw [← hkeptLines]
        exact keptLines_ge hlt.le
      have heq : kept = (scanFences lines).opener := by omega
      refine ⟨kept, [], by rw [append_nil], .inl rfl, ?_⟩
      rw [hkept, heq, hclosed]

/-! ## Whole lines of the section -/

/-- The first `n` bytes are whole lines: none, or as many as a line feed ends. -/
def AtLineEnd (src : Bytes) (n : Nat) : Prop := n = 0 ∨ src[n]? = some Bytes.nl

theorem take_lines_of_not_mem {data : Bytes} (h : Bytes.nl ∉ data) (k : Nat) :
    joinLines (((decoded data).splitOn '\n').take (k + 1)) = decoded (data.take data.length) := by
  rw [splitOn_eq_singleton (nl_not_mem_decoded h), take_length]
  simp [joinLines]

/-- The first lines of decoded bytes are decoded from the front of the bytes, up to the end of a line. -/
theorem decoded_take_lines (data : Bytes) (k : Nat) : ∃ n ≤ data.length,
    joinLines (((decoded data).splitOn '\n').take (k + 1)) = decoded (data.take n) ∧
      (n = data.length ∨ data[n]? = some Bytes.nl) := by
  induction k generalizing data with
  | zero =>
    by_cases hmem : Bytes.nl ∈ data
    · obtain ⟨line, rest, rfl, hline⟩ := eq_append_cons_of_mem hmem
      refine ⟨line.length, by simp, ?_, .inr (by simp)⟩
      rw [decoded_append_nl, splitOn_append_cons_self, splitOn_eq_singleton (nl_not_mem_decoded hline),
        take_left]
      simp [joinLines]
    · exact ⟨data.length, Nat.le_refl _, take_lines_of_not_mem hmem 0, .inl rfl⟩
  | succ k ih =>
    by_cases hmem : Bytes.nl ∈ data
    · obtain ⟨line, rest, rfl, hline⟩ := eq_append_cons_of_mem hmem
      obtain ⟨n, hn, htext, hend⟩ := ih rest
      have htake : (line ++ Bytes.nl :: rest).take (line.length + 1 + n) = line ++ Bytes.nl :: rest.take n := by
        rw [Nat.add_assoc, take_length_add_append, Nat.add_comm 1 n, take_succ_cons]
      refine ⟨line.length + 1 + n, by simp; omega, ?_, ?_⟩
      · obtain ⟨first, lines, hlines⟩ := exists_cons_of_ne_nil (splitOn_ne_nil '\n' (decoded rest))
        rw [htake, decoded_append_nl, decoded_append_nl, ← htext, splitOn_append_cons_self,
          splitOn_eq_singleton (nl_not_mem_decoded hline), hlines, singleton_append, take_succ_cons,
          take_succ_cons, joinLines_cons_cons]
      · rcases hend with rfl | hend
        · exact .inl (by simp; omega)
        · refine .inr ?_
          rw [List.getElem?_append_right (by omega), Nat.add_assoc, Nat.add_sub_cancel_left, Nat.add_comm 1 n,
            List.getElem?_cons_succ, hend]
    · exact ⟨data.length, Nat.le_refl _, take_lines_of_not_mem hmem (k + 1), .inl rfl⟩

/-! ## The last line feed -/

theorem isPrefixOf_nl_drop (buf : Bytes) (i : Nat) : [Bytes.nl].isPrefixOf (buf.drop i) = true ↔ buf[i]? = some Bytes.nl := by
  rw [List.isPrefixOf_iff_prefix, List.singleton_prefix_iff_head?_eq_some, List.head?_drop]

theorem lastIndexOf?_nl {buf : Bytes} {i : Nat} (h : Bytes.lastIndexOf? buf [Bytes.nl] = some i) :
    buf[i]? = some Bytes.nl := by
  rw [← isPrefixOf_nl_drop]
  exact @List.find?_some _ (fun i => [Bytes.nl].isPrefixOf (buf.drop i)) _ _ h

theorem exists_lastIndexOf? {buf : Bytes} {j : Nat} (h : buf[j]? = some Bytes.nl) :
    ∃ i, j ≤ i ∧ Bytes.lastIndexOf? buf [Bytes.nl] = some i := by
  have hj : j < buf.length := (List.getElem?_eq_some_iff.mp h).1
  have hmem : j ∈ (List.range (buf.length + 1)).reverse := by simp; omega
  have hsome : (Bytes.lastIndexOf? buf [Bytes.nl]).isSome = true :=
    List.find?_isSome.mpr ⟨j, hmem, (isPrefixOf_nl_drop buf j).mpr h⟩
  obtain ⟨i, hi⟩ := Option.isSome_iff_exists.mp hsome
  refine ⟨i, ?_, hi⟩
  obtain ⟨-, before, after, hsplit, hbefore⟩ := List.find?_eq_some_iff_append.mp hi
  have hdescending : (List.range (buf.length + 1)).reverse.Pairwise (· > ·) :=
    pairwise_reverse.mpr pairwise_lt_range
  rw [hsplit] at hmem hdescending
  rcases mem_append.mp hmem with hmem | hmem
  · have hnot := hbefore j hmem
    rw [(isPrefixOf_nl_drop buf j).mpr h] at hnot
    cases hnot
  · rcases mem_cons.mp hmem with rfl | hmem
    · exact Nat.le_refl _
    · exact Nat.le_of_lt ((pairwise_cons.mp (pairwise_append.mp hdescending).2.1).1 j hmem)

/-- A clip with a line feed behind its first byte is cut at one. -/
theorem lineEnd_of_nl {clip : Bytes} {j : Nat} (hpos : 0 < j) (h : clip[j]? = some Bytes.nl) :
    clip[lineEnd clip]? = some Bytes.nl := by
  obtain ⟨i, hi, hlast⟩ := exists_lastIndexOf? h
  rw [lineEnd, hlast]
  dsimp only
  rw [if_pos (by omega)]
  exact lastIndexOf?_nl hlast

/-- The first lines of the clip are lines of the section, when it is cut at a line feed. -/
theorem clip_lines (src : Bytes) (room kept : Nat) : ∃ cut ≤ room,
    joinLines (((decoded ((src.take room).take (lineEnd (src.take room)))).splitOn '\n').take kept) =
      decoded (src.take cut) ∧
    ((∃ i, 0 < i ∧ i < room ∧ src[i]? = some Bytes.nl) → AtLineEnd src cut) := by
  cases kept with
  | zero => exact ⟨0, Nat.zero_le _, rfl, fun _ => .inl rfl⟩
  | succ kept =>
    obtain ⟨data, hdata⟩ : ∃ data, data = (src.take room).take (lineEnd (src.take room)) := ⟨_, rfl⟩
    obtain ⟨n, hn, htext, hend⟩ := decoded_take_lines data kept
    have hfront : ∀ m, data.length ≤ m → (src.take m).take n = src.take n := by
      intro m hm
      rw [take_take, Nat.min_eq_left (by omega)]
    have hlength : data.length ≤ room := by
      rw [hdata, take_take]
      exact (length_take_le _ _).trans (Nat.min_le_right _ _)
    have hdataLength : data.length ≤ lineEnd (src.take room) := by
      rw [hdata]
      exact length_take_le _ _
    refine ⟨n, by omega, ?_, ?_⟩
    · rw [← hdata, htext, hdata, take_take, Nat.min_eq_left (by omega), hfront room hlength]
    · rintro ⟨i, hpos, hlt, hi⟩
      have hclip : (src.take room)[i]? = some Bytes.nl := by rw [List.getElem?_take_of_lt hlt, hi]
      have hnl := lineEnd_of_nl hpos hclip
      obtain ⟨hcut, -⟩ := List.getElem?_eq_some_iff.mp hnl
      rw [length_take] at hcut
      right
      rcases hend with rfl | hend
      · have heq : data.length = lineEnd (src.take room) := by
          rw [hdata, length_take, length_take]
          omega
        rw [heq]
        rwa [List.getElem?_take_of_lt (by omega)] at hnl
      · obtain ⟨hshort, -⟩ := List.getElem?_eq_some_iff.mp hend
        rwa [hdata, List.getElem?_take_of_lt (by omega), List.getElem?_take_of_lt (by omega)] at hend

/-! ## Every section -/

end PrReviewer.Corpus
