import Mathlib.Algebra.Order.Field.Power
import Mathlib.Data.Int.Log
import Mathlib.Data.Rat.Floor

/-!
# Rounding to a binary64 number

`roundToDouble q` is the binary64 number next to the exact value `q`, the one with an even last digit of two
that are equally near; overflow to infinity is left out. `minus a b` is `a - b` of a natural number `a` and a
value `b`, as JavaScript computes it.

- Rounding keeps the order (`roundToDouble_mono`) and the integers below `2 ^ 53` (`roundToDouble_intCast`).
-/

namespace Js

/-- The distance of the binary64 numbers next to `q`. -/
def ulp (q : ℚ) : ℚ := 2 ^ max (Int.log 2 |q| - 52) (-1074)

/-- The integer next to `q`, the even one of two equally near. -/
def roundEven (q : ℚ) : ℤ :=
  if Int.fract q < 1 / 2 ∨ (Int.fract q = 1 / 2 ∧ ⌊q⌋ % 2 = 0) then ⌊q⌋ else ⌊q⌋ + 1

/-- The binary64 number next to `q`. -/
def roundToDouble (q : ℚ) : ℚ := roundEven (q / ulp q) * ulp q

/-- `a - b`. -/
def minus (a : Nat) (b : ℚ) : ℚ := roundToDouble (a - b)

/-! ## To an integer -/

theorem roundEven_le (q : ℚ) : roundEven q ≤ ⌊q⌋ + 1 := by
  unfold roundEven
  split <;> omega

theorem floor_le_roundEven (q : ℚ) : ⌊q⌋ ≤ roundEven q := by
  unfold roundEven
  split <;> omega

theorem roundEven_intCast (n : ℤ) : roundEven n = n := by
  simp [roundEven]

theorem roundEven_mono {p q : ℚ} (h : p ≤ q) : roundEven p ≤ roundEven q := by
  rcases (Int.floor_mono h).lt_or_eq with hlt | heq
  · have hp := roundEven_le p
    have hq := floor_le_roundEven q
    omega
  · by_cases hdown : Int.fract q < 1 / 2 ∨ (Int.fract q = 1 / 2 ∧ ⌊q⌋ % 2 = 0)
    · have hfract : Int.fract p ≤ Int.fract q := by
        rw [Int.fract, Int.fract, heq]
        linarith
      have hdown' : Int.fract p < 1 / 2 ∨ (Int.fract p = 1 / 2 ∧ ⌊p⌋ % 2 = 0) := by
        rw [heq]
        grind
      rw [roundEven, roundEven, if_pos hdown, if_pos hdown', heq]
    · have hp := roundEven_le p
      rw [heq] at hp
      rwa [roundEven, roundEven, if_neg hdown] at *

/-! ## To a binary64 number -/

theorem ulp_pos (q : ℚ) : 0 < ulp q := zpow_pos (by norm_num) _

variable {p q : ℚ} {k : ℤ}

/-- A number of the grid stays on its side. -/
theorem le_roundToDouble (h : k * ulp q ≤ q) : k * ulp q ≤ roundToDouble q := by
  have hk : (k : ℚ) ≤ q / ulp q := (le_div_iff₀ (ulp_pos q)).mpr h
  have hround := roundEven_mono hk
  rw [roundEven_intCast] at hround
  exact mul_le_mul_of_nonneg_right (by exact_mod_cast hround) (ulp_pos q).le

theorem roundToDouble_le (h : q ≤ k * ulp q) : roundToDouble q ≤ k * ulp q := by
  have hk : q / ulp q ≤ (k : ℚ) := (div_le_iff₀ (ulp_pos q)).mpr h
  have hround := roundEven_mono hk
  rw [roundEven_intCast] at hround
  exact mul_le_mul_of_nonneg_right (by exact_mod_cast hround) (ulp_pos q).le

theorem roundToDouble_nonneg (h : 0 ≤ q) : 0 ≤ roundToDouble q := by
  have := @le_roundToDouble q 0 (by simpa using h)
  simpa using this

theorem roundToDouble_nonpos (h : q ≤ 0) : roundToDouble q ≤ 0 := by
  have := @roundToDouble_le q 0 (by simpa using h)
  simpa using this

/-- A power of two above the grid of `q` is a number of the grid. -/
theorem exists_mul_ulp {L : ℤ} (h : max (Int.log 2 |q| - 52) (-1074) ≤ L) :
    ∃ k : ℤ, (2 : ℚ) ^ L = k * ulp q := by
  refine ⟨2 ^ (L - max (Int.log 2 |q| - 52) (-1074)).toNat, ?_⟩
  rw [ulp, Int.cast_pow, Int.cast_ofNat, ← zpow_natCast, ← zpow_add₀ (by norm_num)]
  congr 1
  omega

/-- Between two magnitudes with different grids lies a power of two that is on both. -/
theorem exists_between (hp : 0 < |p|) (h : |p| ≤ |q|) (hne : ulp p ≠ ulp q) :
    ∃ L : ℤ, |p| ≤ 2 ^ L ∧ 2 ^ L ≤ |q| ∧ (∃ k : ℤ, (2 : ℚ) ^ L = k * ulp p) ∧
      ∃ k : ℤ, (2 : ℚ) ^ L = k * ulp q := by
  have hlog : Int.log 2 |p| ≤ Int.log 2 |q| := Int.log_mono_right hp h
  have hexp : max (Int.log 2 |p| - 52) (-1074) ≠ max (Int.log 2 |q| - 52) (-1074) :=
    fun heq => hne (by rw [ulp, ulp, heq])
  refine ⟨Int.log 2 |q|, ?_, ?_, exists_mul_ulp (by omega), exists_mul_ulp (by omega)⟩
  · have hlt := Int.lt_zpow_succ_log_self (R := ℚ) (b := 2) (by norm_num) |p|
    have hle : (2 : ℚ) ^ (Int.log 2 |p| + 1) ≤ 2 ^ Int.log 2 |q| :=
      zpow_le_zpow_right₀ (by norm_num) (by omega)
    exact hlt.le.trans hle
  · exact Int.zpow_log_le_self (by norm_num) (hp.trans_le h)

theorem roundToDouble_mono (h : p ≤ q) : roundToDouble p ≤ roundToDouble q := by
  by_cases hulp : ulp p = ulp q
  · have hdiv : p / ulp p ≤ q / ulp q := by
      rw [hulp]
      exact div_le_div_of_nonneg_right h (ulp_pos q).le
    rw [roundToDouble, roundToDouble, hulp] at *
    exact mul_le_mul_of_nonneg_right (by exact_mod_cast roundEven_mono hdiv) (ulp_pos q).le
  · rcases lt_or_ge 0 p with hp | hp
    · have hq := hp.trans_le h
      obtain ⟨L, hpL, hLq, ⟨k, hk⟩, l, hl⟩ :=
        exists_between (abs_pos.mpr hp.ne') (by rwa [abs_of_pos hp, abs_of_pos hq]) hulp
      rw [abs_of_pos hp, hk] at hpL
      rw [abs_of_pos hq, hl] at hLq
      calc roundToDouble p ≤ k * ulp p := roundToDouble_le hpL
        _ = l * ulp q := by rw [← hk, hl]
        _ ≤ roundToDouble q := le_roundToDouble hLq
    · rcases le_or_gt 0 q with hq | hq
      · exact (roundToDouble_nonpos hp).trans (roundToDouble_nonneg hq)
      · have hp' := h.trans_lt hq
        obtain ⟨L, hqL, hLp, ⟨l, hl⟩, k, hk⟩ :=
          exists_between (abs_pos.mpr hq.ne) (by rw [abs_of_neg hp', abs_of_neg hq]; linarith) (Ne.symm hulp)
        rw [abs_of_neg hq] at hqL
        rw [abs_of_neg hp'] at hLp
        have hpk : p ≤ ((-k : ℤ) : ℚ) * ulp p := by
          rw [Int.cast_neg, neg_mul, ← hk]
          linarith
        have hlq : ((-l : ℤ) : ℚ) * ulp q ≤ q := by
          rw [Int.cast_neg, neg_mul, ← hl]
          linarith
        calc roundToDouble p ≤ ((-k : ℤ) : ℚ) * ulp p := roundToDouble_le hpk
          _ = ((-l : ℤ) : ℚ) * ulp q := by rw [Int.cast_neg, Int.cast_neg, neg_mul, neg_mul, ← hk, hl]
          _ ≤ roundToDouble q := le_roundToDouble hlq

/-- The integers below `2 ^ 53` are binary64 numbers. -/
theorem roundToDouble_intCast {n : ℤ} (h : |n| < 2 ^ 53) : roundToDouble n = n := by
  have hlog : Int.log 2 |(n : ℚ)| < 53 := by
    by_cases hn : n = 0
    · subst hn
      simp
    · have hpos : 0 < |(n : ℚ)| := abs_pos.mpr (by exact_mod_cast hn)
      rw [← Int.lt_zpow_iff_log_lt (by norm_num) hpos]
      have hcast : |(n : ℚ)| < 2 ^ 53 := by exact_mod_cast h
      exact_mod_cast hcast
  obtain ⟨k, hk⟩ := @exists_mul_ulp n 0 (by omega)
  have hn : (n : ℚ) = ((n * k : ℤ) : ℚ) * ulp n := by
    rw [Int.cast_mul, mul_assoc, ← hk, zpow_zero, mul_one]
  refine le_antisymm ?_ ?_
  · calc roundToDouble n ≤ ((n * k : ℤ) : ℚ) * ulp n := roundToDouble_le hn.le
      _ = n := hn.symm
  · calc (n : ℚ) = ((n * k : ℤ) : ℚ) * ulp n := hn
      _ ≤ roundToDouble n := le_roundToDouble hn.ge

/-! ## Differences -/

theorem minus_mono {a a' : Nat} (h : a ≤ a') (b : ℚ) : minus a b ≤ minus a' b := by
  apply roundToDouble_mono
  have : (a : ℚ) ≤ a' := by exact_mod_cast h
  linarith

theorem minus_anti (a : Nat) {b b' : ℚ} (h : b ≤ b') : minus a b' ≤ minus a b := by
  apply roundToDouble_mono
  linarith

/-- A comparison of integers with a difference of integers does not see the rounding. -/
theorem minus_lt_iff {a b c : Nat} (hc : c < 2 ^ 53) : minus a b < c ↔ a < c + b := by
  constructor
  · intro hlt
    by_contra hle
    have hle' : ((c : ℤ) : ℚ) ≤ (a : ℚ) - b := by
      have : ((c + b : ℕ) : ℚ) ≤ a := by exact_mod_cast not_lt.mp hle
      push_cast at this ⊢
      linarith
    have hround := roundToDouble_mono hle'
    rw [roundToDouble_intCast (by rw [abs_of_nonneg (by omega)]; omega)] at hround
    exact absurd hlt (not_lt.mpr hround)
  · intro hlt
    have hle : (a : ℚ) - b ≤ ((c - 1 : ℤ) : ℚ) := by
      have : ((a + 1 : ℕ) : ℚ) ≤ ((c + b : ℕ) : ℚ) := by exact_mod_cast hlt
      push_cast at this ⊢
      linarith
    have hround := roundToDouble_mono hle
    rw [roundToDouble_intCast (by rw [abs_lt]; omega)] at hround
    refine hround.trans_lt ?_
    push_cast
    linarith

end Js
