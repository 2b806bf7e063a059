import PrReviewer.Js.Units

/-!
# A text inside its own encodings

* `encodeURIComponent` goes byte by byte over the UTF-8 text (`encodeURIComponent_eq`), so no stretch of it without a
  `%` is as long as the base64 text (`not_base64_in_encoded`).
* Neither encoding of a text is a row of two or more copies of it (`not_encoded_row`, `not_base64_row`).
-/

open List

namespace Js

variable {s e : Units} {bytes : List UInt8} {n : Nat}

/-! ## UTF-8 -/

theorem val_ofNat (h : n.isValidChar) : (Char.ofNat n).val.toNat = n := by
  rw [Char.ofNat, dif_pos h]
  rfl

theorem utf8Point_of_lt (h : n < 0x80) : utf8Point n = [UInt8.ofNat n] := by
  have hs : isSurrogate n = false := by simp [isSurrogate]; omega
  have hv : n.isValidChar := .inl (by omega)
  have hval := val_ofNat hv
  rw [utf8Point, hs, if_neg Bool.false_ne_true, String.utf8EncodeChar, hval, if_pos (by omega)]

variable {b : UInt8} {k : Nat} {w : Units}

theorem le_of_mem_utf8Point (h : 0x80 ≤ n) (hn : n < 0x110000) (hb : b ∈ utf8Point n) : 0x80 ≤ b.toNat := by
  rw [utf8Point] at hb
  by_cases hs : isSurrogate n
  · rw [if_pos hs] at hb
    have hmark : ∀ b ∈ String.utf8EncodeChar (Char.ofNat 0xFFFD), 0x80 ≤ b.toNat :=
      @of_decide_eq_true _ (List.decidableBAll _ _) rfl
    exact hmark b hb
  · have hv : n.isValidChar := by
      simp only [isSurrogate, Bool.and_eq_true, decide_eq_true_eq] at hs
      simp only [Nat.isValidChar]
      omega
    have hval := val_ofNat hv
    rw [if_neg hs, String.utf8EncodeChar, hval] at hb
    split at hb
    · omega
    · split at hb
      · simp only [mem_cons, not_mem_nil, or_false] at hb
        rcases hb with rfl | rfl <;> simp [UInt8.toNat_ofNat'] <;> omega
      · split at hb
        · simp only [mem_cons, not_mem_nil, or_false] at hb
          rcases hb with rfl | rfl | rfl <;> simp [UInt8.toNat_ofNat'] <;> omega
        · simp only [mem_cons, not_mem_nil, or_false] at hb
          rcases hb with rfl | rfl | rfl | rfl <;> simp [UInt8.toNat_ofNat'] <;> omega

theorem one_le_length_utf8Point (n : Nat) : 1 ≤ (utf8Point n).length := by
  rw [utf8Point, String.length_utf8EncodeChar]
  exact Char.utf8Size_pos _

theorem length_utf8Point_of_le (h : 0x10000 ≤ n) (hn : n < 0x110000) : (utf8Point n).length = 4 := by
  have hs : isSurrogate n = false := by simp [isSurrogate]; omega
  have hv : n.isValidChar := .inr ⟨by omega, hn⟩
  have hval := val_ofNat hv
  rw [utf8Point, hs, if_neg Bool.false_ne_true, String.utf8EncodeChar, hval, if_neg (by omega), if_neg (by omega),
    if_neg (by omega)]
  rfl

/-- A surrogate pair is a code point of the supplementary planes. -/
theorem pair_bounds {a b : UInt16} (h : (isHighSurrogate a && isLowSurrogate b) = true) :
    0x10000 ≤ 0x10000 + (a.toNat - 0xD800) * 0x400 + (b.toNat - 0xDC00) ∧
      0x10000 + (a.toNat - 0xD800) * 0x400 + (b.toNat - 0xDC00) < 0x110000 := by
  simp only [isHighSurrogate, isLowSurrogate, Bool.and_eq_true, decide_eq_true_eq, UInt16.le_iff_toNat_le,
    UInt16.lt_iff_toNat_lt, UInt16.reduceToNat] at h
  omega

theorem lt_of_mem_codePoints (h : n ∈ codePoints s) : n < 0x110000 := by
  induction s using codePoints.induct with
  | case1 => simp [codePoints] at h
  | case2 a =>
    have := a.toNat_lt
    simp only [codePoints, mem_singleton] at h
    omega
  | case3 a b cs hpair ih =>
    rw [codePoints, if_pos hpair, mem_cons] at h
    rcases h with h | h
    · have := (pair_bounds hpair).2
      omega
    · exact ih h
  | case4 a b cs hpair ih =>
    have := a.toNat_lt
    rw [codePoints, if_neg hpair, mem_cons] at h
    rcases h with rfl | h
    · omega
    · exact ih h

/-- The UTF-8 text is no shorter. -/
theorem length_le_utf8Units (s : Units) : s.length ≤ (utf8Units s).length := by
  rw [utf8Units]
  induction s using codePoints.induct with
  | case1 => simp
  | case2 a =>
    have := one_le_length_utf8Point a.toNat
    simpa [codePoints] using this
  | case3 a b cs hpair ih =>
    obtain ⟨hle, hlt⟩ := pair_bounds hpair
    generalize hn : 0x10000 + (a.toNat - 0xD800) * 0x400 + (b.toNat - 0xDC00) = n at hle hlt
    have := length_utf8Point_of_le hle hlt
    rw [codePoints, if_pos hpair, hn, flatMap_cons, length_append, this, length_cons, length_cons]
    omega
  | case4 a b cs hpair ih =>
    have := one_le_length_utf8Point a.toNat
    rw [codePoints, if_neg hpair, flatMap_cons, length_append, length_cons]
    omega

/-- The code points of a text without a pair are its units. -/
theorem codePoints_of_ascii (h : IsAscii s) : codePoints s = s.map UInt16.toNat := by
  induction s using codePoints.induct with
  | case1 => rfl
  | case2 a => rfl
  | case3 a b cs hpair ih =>
    have ha := h a mem_cons_self
    simp only [isHighSurrogate, Bool.and_eq_true, decide_eq_true_eq, UInt16.le_iff_toNat_le,
      UInt16.reduceToNat] at hpair
    omega
  | case4 a b cs hpair ih =>
    rw [codePoints, if_neg hpair, ih fun u hu => h u (mem_cons_of_mem a hu), map_cons (l := b :: cs)]

theorem isAscii_of_codePoints (h : ∀ n ∈ codePoints s, n < 0x80) : IsAscii s := by
  induction s using codePoints.induct with
  | case1 => simp [IsAscii]
  | case2 a => simpa [codePoints, IsAscii] using h
  | case3 a b cs hpair ih =>
    have := h _ (by rw [codePoints, if_pos hpair]; exact mem_cons_self)
    omega
  | case4 a b cs hpair ih =>
    rw [codePoints, if_neg hpair, forall_mem_cons] at h
    exact forall_mem_cons.mpr ⟨h.1, ih h.2⟩

/-! ## Percent-encoding -/

/-- How `encodeURIComponent` writes a byte of the UTF-8 text. -/
def encodeByte (b : UInt8) : Units := if isUnreserved b.toNat then [UInt16.ofNat b.toNat] else percentByte b

theorem encodePoint_eq (h : n < 0x110000) : encodePoint n = (utf8Point n).flatMap encodeByte := by
  by_cases hlow : n < 0x80
  · have hbyte : (UInt8.ofNat n).toNat = n := UInt8.toNat_ofNat_of_lt' (lt_trans hlow (by decide))
    rw [encodePoint, utf8Point_of_lt hlow, flatMap_singleton, flatMap_singleton, encodeByte, hbyte]
  · have hnot : isUnreserved n ≠ true := fun h => hlow (lt_of_isUnreserved h)
    rw [encodePoint, if_neg hnot]
    refine flatMap_congr fun b hb => ?_
    have := le_of_mem_utf8Point (by omega) h hb
    rw [encodeByte, if_neg fun hb => by have := lt_of_isUnreserved hb; omega]

theorem encodeURIComponent_eq (h : encodeURIComponent s = some e) : e = (utf8Units s).flatMap encodeByte := by
  rw [encodeURIComponent] at h
  split at h
  · simp at h
  · rw [← Option.some.inj h, utf8Units, flatMap_assoc]
    exact flatMap_congr fun n hn => encodePoint_eq (lt_of_mem_codePoints hn)

/-- An encoded text is no shorter. -/
theorem length_le_encodeURIComponent (h : encodeURIComponent s = some e) : s.length ≤ e.length := by
  rw [encodeURIComponent_eq h]
  refine (length_le_utf8Units s).trans ?_
  induction utf8Units s with
  | nil => simp
  | cons b bytes ih =>
    have hb : 1 ≤ (encodeByte b).length := by
      rw [encodeByte]
      split <;> simp [percentByte]
    rw [flatMap_cons, length_append, length_cons]
    omega

theorem isUnreserved_upperHexDigit {n : Nat} (h : n < 16) :
    isUnreserved (upperHexDigit n).toNat = true ∧ upperHexDigit n ≠ 37 := by
  interval_cases n <;> decide

/-- What `encodeURIComponent` writes is unreserved or `%`. -/
theorem unreserved_of_mem_encodeByte {u : UInt16} (h : u ∈ encodeByte b) :
    isUnreserved u.toNat = true ∨ u = 37 := by
  have hb : b.toNat < 256 := b.toNat_lt
  rw [encodeByte] at h
  split at h
  · next hres =>
    obtain rfl := mem_singleton.mp h
    rw [UInt16.toNat_ofNat_of_lt' (lt_trans hb (by decide))]
    exact .inl hres
  · simp only [percentByte, mem_cons, not_mem_nil, or_false] at h
    rcases h with rfl | rfl | rfl
    · exact .inr rfl
    · exact .inl (isUnreserved_upperHexDigit (by omega)).1
    · exact .inl (isUnreserved_upperHexDigit (by omega)).1

/-- An encoded text without an escape is the text. -/
theorem eq_of_encodeURIComponent (h : encodeURIComponent s = some e) (hp : 37 ∉ e) : e = s := by
  rw [encodeURIComponent] at h
  split at h
  · simp at h
  · obtain rfl := Option.some.inj h
    have hall : ∀ n ∈ codePoints s, isUnreserved n = true := by
      intro n hn
      by_contra hres
      refine hp (mem_flatMap.mpr ⟨n, hn, ?_⟩)
      rw [encodePoint, if_neg hres]
      obtain ⟨b, rest, hbytes⟩ := exists_cons_of_length_pos (one_le_length_utf8Point n)
      simp [hbytes, percentByte]
    have hascii : codePoints s = s.map UInt16.toNat :=
      codePoints_of_ascii (isAscii_of_codePoints fun n hn => lt_of_isUnreserved (hall n hn))
    have hflat : (codePoints s).flatMap encodePoint = (codePoints s).flatMap fun n => [UInt16.ofNat n] :=
      flatMap_congr fun n hn => by rw [encodePoint, if_pos (hall n hn)]
    rw [hflat, hascii, flatMap_map]
    simp

/-- An encoded text is no row of copies of the text. -/
theorem not_encoded_row (h : encodeURIComponent s = some e) (hs : s ≠ []) (hk : 2 ≤ k) :
    e ≠ (List.replicate k s).flatten := by
  rintro rfl
  have hlength := length_pos_iff.mpr hs
  have hmem : ∀ u ∈ s, isUnreserved u.toNat = true ∨ u = 37 := by
    intro u hu
    have hrow : u ∈ (List.replicate k s).flatten :=
      mem_flatten.mpr ⟨s, mem_replicate.mpr ⟨by omega, rfl⟩, hu⟩
    rw [encodeURIComponent_eq h] at hrow
    obtain ⟨b, -, hb⟩ := mem_flatMap.mp hrow
    exact unreserved_of_mem_encodeByte hb
  have hascii : IsAscii s := by
    intro u hu
    rcases hmem u hu with h | rfl
    · exact lt_of_isUnreserved h
    · decide
  -- every `%` of the text is one of its encoding, and there are no others
  have hcount : (List.replicate k s).flatten.count 37 = s.count 37 := by
    have hflat : (List.replicate k s).flatten = s.flatMap fun u => encodePoint u.toNat := by
      rw [encodeURIComponent] at h
      split at h
      · simp at h
      · rw [← Option.some.inj h, codePoints_of_ascii hascii, flatMap_map]
    rw [hflat, count_flatMap]
    clear hflat h hascii hlength hs
    induction s with
    | nil => rfl
    | cons u s ih =>
      rw [forall_mem_cons] at hmem
      rw [map_cons, sum_cons, ih hmem.2, count_cons, Nat.add_comm]
      congr 1
      rcases hmem.1 with hu | rfl
      · have hne : u ≠ 37 := by
          rintro rfl
          exact absurd hu (by decide)
        simp [encodePoint, hu, hne]
      · decide
  have hrow : (List.replicate k s).flatten.count 37 = k * s.count 37 := by
    rw [count_flatten, map_replicate, sum_replicate_nat]
  have hzero : s.count 37 = 0 := by
    rw [hrow] at hcount
    by_contra hne
    have : 2 * s.count 37 ≤ k * s.count 37 := Nat.mul_le_mul_right _ hk
    omega
  have heq := eq_of_encodeURIComponent h (count_eq_zero.mp (by rw [hrow, hzero, Nat.mul_zero]))
  have hlengths := congrArg List.length heq
  rw [length_flatten, map_replicate, sum_replicate_nat] at hlengths
  have : 2 * s.length ≤ k * s.length := Nat.mul_le_mul_right _ hk
  omega

/-! ## Base64 -/

theorem length_base64 (bytes : List UInt8) : (base64 bytes).length = 4 * ((bytes.length + 2) / 3) := by
  induction bytes using base64.induct with
  | case1 => simp [base64]
  | case2 a => simp [base64]
  | case3 a b => simp [base64]
  | case4 a b c rest ih =>
    simp only [base64, length_cons, ih]
    omega

theorem base64Digit_ne {n : Nat} (h : n < 64) : base64Digit n ≠ 37 ∧ base64Digit n ≠ base64Pad := by
  interval_cases n <;> decide

/-- Base64 holds no `%`. -/
theorem not_mem_base64 (bytes : List UInt8) : 37 ∉ base64 bytes := by
  have hlt (b : UInt8) : b.toNat < 256 := b.toNat_lt
  have hdigit {n : Nat} (h : n < 64) : (37 : UInt16) ≠ base64Digit n := (base64Digit_ne h).1.symm
  have hpad : (37 : UInt16) ≠ base64Pad := by decide
  induction bytes using base64.induct with
  | case1 => simp [base64]
  | case2 a =>
    have ha := hlt a
    simp only [base64, mem_cons, not_mem_nil, or_false, not_or]
    exact ⟨hdigit (by omega), hdigit (by omega), hpad, hpad⟩
  | case3 a b =>
    have ha := hlt a
    have hb := hlt b
    simp only [base64, mem_cons, not_mem_nil, or_false, not_or]
    exact ⟨hdigit (by omega), hdigit (by omega), hdigit (by omega), hpad⟩
  | case4 a b c rest ih =>
    have ha := hlt a
    have hb := hlt b
    have hc := hlt c
    simp only [base64, mem_cons, not_or]
    exact ⟨hdigit (by omega), hdigit (by omega), hdigit (by omega), hdigit (by omega), ih⟩

/-- The padding stands at the last two places, -/
theorem base64_not_pad {i : Nat} (h : i + 2 < (base64 bytes).length) : (base64 bytes)[i]? ≠ some base64Pad := by
  have hlt (b : UInt8) : b.toNat < 256 := b.toNat_lt
  have hdigit {n : Nat} (h : n < 64) : some (base64Digit n) ≠ some base64Pad :=
    fun heq => (base64Digit_ne h).2 (Option.some.inj heq)
  induction bytes using base64.induct generalizing i with
  | case1 => simp [base64] at h
  | case2 a =>
    have ha := hlt a
    rcases i with _ | _ | i
    · exact hdigit (by omega)
    · exact hdigit (by omega)
    · simp only [base64, length_cons, length_nil] at h
      omega
  | case3 a b =>
    have ha := hlt a
    have hb := hlt b
    rcases i with _ | _ | i
    · exact hdigit (by omega)
    · exact hdigit (by omega)
    · simp only [base64, length_cons, length_nil] at h
      omega
  | case4 a b c rest ih =>
    have ha := hlt a
    have hb := hlt b
    have hc := hlt c
    rcases i with _ | _ | _ | _ | i
    · exact hdigit (by omega)
    · exact hdigit (by omega)
    · exact hdigit (by omega)
    · exact hdigit (by omega)
    · exact ih (by simp only [base64, length_cons] at h; omega)

/-- and at the last one where the bytes are not a multiple of three. -/
theorem base64_getLast (h : bytes.length % 3 ≠ 0) : (base64 bytes).getLast? = some base64Pad := by
  induction bytes using base64.induct with
  | case1 => simp at h
  | case2 a => rfl
  | case3 a b => rfl
  | case4 a b c rest ih =>
    have hrest := ih (by simp only [length_cons] at h; omega)
    cases hb : base64 rest with
    | nil => simp [hb] at hrest
    | cons u us => simpa [base64, hb, List.getLast?_cons_cons] using hb ▸ hrest

/-- A base64 text is no row of copies of the text. -/
theorem not_base64_row (hs : s ≠ []) (hk : 2 ≤ k) : base64 (utf8Units s) ≠ (List.replicate k s).flatten := by
  intro hrow
  have hlength := length_pos_iff.mpr hs
  have hascii : IsAscii s := fun u hu => ascii_base64 (utf8Units s) u
    (hrow ▸ mem_flatten.mpr ⟨s, mem_replicate.mpr ⟨by omega, rfl⟩, hu⟩)
  have hbytes : (utf8Units s).length = s.length := by
    have hflat : (s.map UInt16.toNat).flatMap utf8Point = (s.map UInt16.toNat).flatMap fun n => [UInt8.ofNat n] :=
      flatMap_congr fun n hn => by
        obtain ⟨u, hu, rfl⟩ := mem_map.mp hn
        exact utf8Point_of_lt (hascii u hu)
    rw [utf8Units, codePoints_of_ascii hascii, hflat, ← map_eq_flatMap, length_map, length_map]
  have hlengths := congrArg List.length hrow
  rw [length_base64, hbytes, length_flatten, map_replicate, sum_replicate_nat] at hlengths
  have htwice : 2 * s.length ≤ k * s.length := Nat.mul_le_mul_right _ hk
  by_cases hthree : s.length % 3 = 0
  · omega
  · -- the text would end in the padding, and its first copy ends in front of the last two places
    obtain ⟨k, rfl⟩ := Nat.exists_eq_add_of_le' (show 1 ≤ k by omega)
    have hlast : s.getLast? = some base64Pad := by
      have h : (base64 (utf8Units s)).getLast? = some base64Pad := base64_getLast (by omega)
      rw [hrow, replicate_succ', flatten_append, flatten_singleton, List.getLast?_append] at h
      cases hs' : s.getLast? with
      | none => exact absurd (List.getLast?_eq_none_iff.mp hs') hs
      | some u => simpa [hs'] using h
    have hfirst : (base64 (utf8Units s))[s.length - 1]? = some base64Pad := by
      rw [hrow, replicate_succ, flatten_cons, List.getElem?_append_left (by omega), ← List.getLast?_eq_getElem?]
      exact hlast
    exact base64_not_pad (by rw [length_base64]; omega) hfirst

/-! ## Base64 inside percent-encoding -/

/-- Without a `%` only whole bytes stand at the front. -/
theorem length_le_of_front (h : w <+: bytes.flatMap encodeByte) (hw : 37 ∉ w) : w.length ≤ bytes.length := by
  induction bytes generalizing w with
  | nil => simp_all
  | cons b bytes ih =>
    cases w with
    | nil => simp
    | cons u w =>
      rw [flatMap_cons, encodeByte] at h
      split at h
      · rw [singleton_append, cons_prefix_cons] at h
        have := ih h.2 fun hmem => hw (mem_cons_of_mem u hmem)
        simpa using this
      · simp only [percentByte, cons_append, cons_prefix_cons] at h
        exact absurd (h.1 ▸ mem_cons_self) hw

/-- A stretch without a `%` is no longer than the bytes, or begins at the first digit of an escape. -/
theorem length_le_of_stretch (h : w <:+: bytes.flatMap encodeByte) (hw : 37 ∉ w) :
    w.length ≤ bytes.length ∨ ∃ before b after, bytes = before ++ b :: after ∧
      w.head? = some (upperHexDigit (b.toNat / 16)) ∧ w.length ≤ after.length + 2 := by
  induction bytes with
  | nil => simp_all
  | cons b bytes ih =>
    have hrest (h : w <:+: bytes.flatMap encodeByte) : w.length ≤ (b :: bytes).length ∨
        ∃ before b' after, b :: bytes = before ++ b' :: after ∧
          w.head? = some (upperHexDigit (b'.toNat / 16)) ∧ w.length ≤ after.length + 2 := by
      rcases ih h with h | ⟨before, b', after, rfl, hhead, hlength⟩
      · exact .inl (by rw [length_cons]; omega)
      · exact .inr ⟨b :: before, b', after, rfl, hhead, hlength⟩
    by_cases hres : isUnreserved b.toNat = true
    · have hcons : (b :: bytes).flatMap encodeByte = UInt16.ofNat b.toNat :: bytes.flatMap encodeByte := by
        rw [flatMap_cons, encodeByte, if_pos hres, singleton_append]
      rcases infix_cons_iff.mp (hcons ▸ h) with hp | hi
      · exact .inl (length_le_of_front (hcons ▸ hp) hw)
      · exact hrest hi
    · have hcons : (b :: bytes).flatMap encodeByte =
          37 :: upperHexDigit (b.toNat / 16) :: upperHexDigit (b.toNat % 16) :: bytes.flatMap encodeByte := by
        rw [flatMap_cons, encodeByte, if_neg hres]
        rfl
      rw [hcons] at h
      rcases infix_cons_iff.mp h with hp | h
      · -- a text at the `%` is empty
        cases w with
        | nil => exact .inl (Nat.zero_le _)
        | cons u w => exact absurd ((cons_prefix_cons.mp hp).1 ▸ mem_cons_self) hw
      rcases infix_cons_iff.mp h with hp | h
      · cases w with
        | nil => exact .inl (Nat.zero_le _)
        | cons u w =>
          obtain ⟨rfl, hp₁⟩ := cons_prefix_cons.mp hp
          refine .inr ⟨[], b, bytes, rfl, rfl, ?_⟩
          cases w with
          | nil => simp
          | cons v w =>
            have := length_le_of_front (cons_prefix_cons.mp hp₁).2 fun hmem => hw (by simp [hmem])
            simp only [length_cons]
            omega
      rcases infix_cons_iff.mp h with hp | h
      · cases w with
        | nil => exact .inl (Nat.zero_le _)
        | cons v w =>
          have := length_le_of_front (cons_prefix_cons.mp hp).2 fun hmem => hw (by simp [hmem])
          exact .inl (by simp only [length_cons]; omega)
      · exact hrest h

/-- The first base64 digit of a byte is not its first hexadecimal digit. -/
theorem base64Digit_ne_upperHexDigit (b : UInt8) : base64Digit (b.toNat / 4) ≠ upperHexDigit (b.toNat / 16) := by
  have hb : b.toNat < 256 := b.toNat_lt
  generalize b.toNat = n at hb
  interval_cases n <;> decide

/-- The base64 text does not stand in the percent-encoded one. -/
theorem not_base64_in_encoded (h : bytes ≠ []) : ¬ base64 bytes <:+: bytes.flatMap encodeByte := by
  intro hinfix
  have hpos := length_pos_iff.mpr h
  have hlength := length_base64 bytes
  rcases length_le_of_stretch hinfix (not_mem_base64 bytes) with hle | ⟨before, b, after, rfl, hhead, hle⟩
  · omega
  · rw [length_append, length_cons] at hlength hpos
    obtain rfl : before = [] := length_eq_zero_iff.mp (by omega)
    obtain ⟨c, d, rfl⟩ : ∃ c d, after = [c, d] := length_eq_two.mp (by simp only [length_nil] at hlength; omega)
    rw [nil_append, base64, List.head?_cons, Option.some.injEq] at hhead
    exact base64Digit_ne_upperHexDigit b hhead

end Js
