import PrReviewer.Js.Rounding
import PrReviewer.Js.SafeInteger

/-!
# Rounding in the model of binary64

The mantissa, the exponent and the accuracy that an operation of the model rounds stand for an exact value, and the
result is the number next to that value: `roundWithAccuracy_spec`, in terms of `roundToDouble`. So the result depends
on the value only.

- A shift keeps what a mantissa with its residual bits stands for (`Stands.shiftRight`), and rounding it gives the
  nearest integer (`Stands.roundedMantissa`).
-/

open Float.Model Float.Model.UnpackedFloat

namespace Js

namespace Number

/-! ## What a mantissa stands for -/

/-- What the accuracy says of the part of a value behind its mantissa. -/
def Locates : Accuracy → ℚ → Prop
  | .exact, f => f = 0
  | .inexact .lt, f => 0 < f ∧ f < 1 / 2
  | .inexact .eq, f => f = 1 / 2
  | .inexact .gt, f => 1 / 2 < f ∧ f < 1

/-- The mantissa with its residual bits stands for the value. -/
def Stands (em : ExtendedMantissa) (v : ℚ) : Prop := Locates em.accuracy (v - em.mantissa)

variable {m m' : Nat} {acc : Accuracy} {e e' : ℤ} {s : Sign}

theorem stands_ofMantissaAndAccuracy {v : ℚ} (h : Locates acc (v - m)) :
    Stands (ExtendedMantissa.ofMantissaAndAccuracy m acc) v := by
  cases acc with
  | exact => exact h
  | inexact o => cases o <;> exact h

variable {em : ExtendedMantissa} {v : ℚ}

theorem Stands.bounds (h : Stands em v) : (em.mantissa : ℚ) ≤ v ∧ v < em.mantissa + 1 := by
  rw [Stands] at h
  cases hacc : em.accuracy with
  | exact =>
    rw [hacc, Locates] at h
    constructor <;> linarith
  | inexact o =>
    rw [hacc] at h
    cases o <;> rw [Locates] at h <;> constructor <;> linarith

theorem Stands.floor (h : Stands em v) : ⌊v⌋ = (em.mantissa : ℤ) :=
  Int.floor_eq_iff.mpr (by exact_mod_cast h.bounds)

/-- Half of the value, with one bit more behind the mantissa. -/
theorem Stands.shiftRightOne (h : Stands em v) : Stands em.shiftRightOne (v / 2) := by
  obtain ⟨m, r, s⟩ := em
  rcases Nat.even_or_odd' m with ⟨n, rfl | rfl⟩
  · have hhalf : 2 * n / 2 = n := by omega
    have hbit : (2 * n % 2 != 0) = false := by simp
    cases r <;> cases s <;>
      simp only [Stands, ExtendedMantissa.shiftRightOne, ExtendedMantissa.accuracy, hhalf, hbit, Locates,
        Bool.or_false, Bool.or_true, Nat.cast_mul, Nat.cast_ofNat] at h ⊢ <;>
      (try constructor) <;> linarith
  · have hhalf : (2 * n + 1) / 2 = n := by omega
    have hbit : ((2 * n + 1) % 2 != 0) = true := by simp [Nat.add_mod]
    cases r <;> cases s <;>
      simp only [Stands, ExtendedMantissa.shiftRightOne, ExtendedMantissa.accuracy, hhalf, hbit, Locates,
        Bool.or_false, Bool.or_true, Nat.cast_add, Nat.cast_mul, Nat.cast_ofNat, Nat.cast_one] at h ⊢ <;>
      (try constructor) <;> linarith

theorem Stands.shiftRight (h : Stands em v) (k : Nat) : Stands (em >>> k) (v / 2 ^ k) := by
  induction k with
  | zero =>
    rw [pow_zero, div_one]
    exact h
  | succ k ih =>
    rw [pow_succ, ← div_div]
    exact ih.shiftRightOne

/-- The rounded mantissa is the nearest integer. -/
theorem Stands.roundedMantissa (h : Stands em v) : (em.roundedMantissa : ℤ) = roundEven v := by
  have hfloor := h.floor
  have hfract : Int.fract v = v - em.mantissa := by rw [Int.fract, hfloor, Int.cast_natCast]
  rw [roundEven, hfract, hfloor]
  rw [Stands] at h
  rw [ExtendedMantissa.roundedMantissa]
  cases hacc : em.accuracy with
  | exact =>
    rw [hacc, Locates] at h
    rw [if_pos (.inl (by rw [h]; norm_num)), Accuracy.roundToNearestEven]
  | inexact o =>
    rw [hacc] at h
    cases o with
    | lt =>
      rw [Locates] at h
      rw [if_pos (.inl h.2), Accuracy.roundToNearestEven]
    | eq =>
      rw [Locates] at h
      rw [Accuracy.roundToNearestEven, h]
      split
      · next heven =>
        have hmod : em.mantissa % 2 = 0 := by
          rcases heven with hlt | ⟨-, hmod⟩
          · exact absurd hlt (lt_irrefl _)
          · omega
        rw [hmod, Nat.add_zero]
      · next hodd =>
        have hmod : em.mantissa % 2 = 1 := by
          by_contra hne
          exact hodd (.inr ⟨rfl, by omega⟩)
        rw [hmod, Nat.cast_add, Nat.cast_one]
    | gt =>
      rw [Locates] at h
      rw [if_neg, Accuracy.roundToNearestEven, Nat.cast_add, Nat.cast_one]
      rintro (hlt | ⟨heq, -⟩) <;> linarith

/-! ## Mantissas and exponents of 53 bits -/

/-- The form of a finite number: 53 bits, fewer at the lowest exponent only. -/
structure Canonical (m : Nat) (e : ℤ) : Prop where
  lt : m < 2 ^ 53
  le : -1074 ≤ e
  full : 2 ^ 52 ≤ m ∨ e = -1074

theorem two_zpow_pos (e : ℤ) : (0 : ℚ) < 2 ^ e := zpow_pos (by norm_num) e

theorem Canonical.le_of_eq (h : Canonical m e) (h' : Canonical m' e')
    (heq : (m : ℚ) * 2 ^ e = m' * 2 ^ e') : e' ≤ e := by
  by_contra hlt
  have hfull : 2 ^ 52 ≤ m' := h'.full.resolve_right (by have := h.le; omega)
  have hsplit : (2 : ℚ) ^ e' = 2 ^ (e' - e - 1) * 2 * 2 ^ e := by
    rw [← zpow_add_one₀ (by norm_num), ← zpow_add₀ (by norm_num)]
    congr 1
    omega
  have hone : (1 : ℚ) ≤ 2 ^ (e' - e - 1) := one_le_zpow₀ (by norm_num) (by omega)
  rw [hsplit, ← mul_assoc] at heq
  have hm := mul_right_cancel₀ (two_zpow_pos e).ne' heq
  have hlow : (2 ^ 52 : ℚ) ≤ m' := by exact_mod_cast hfull
  have hhigh : (m : ℚ) < 2 ^ 53 := by exact_mod_cast h.lt
  nlinarith

/-- A value has one such form. -/
theorem Canonical.unique (h : Canonical m e) (h' : Canonical m' e')
    (heq : (m : ℚ) * 2 ^ e = m' * 2 ^ e') : m = m' ∧ e = e' := by
  obtain rfl : e = e' := le_antisymm (h'.le_of_eq h heq.symm) (h.le_of_eq h' heq)
  exact ⟨Nat.cast_injective (mul_right_cancel₀ (two_zpow_pos e).ne' heq), rfl⟩

/-! ## Rounding -/

theorem log_eq {v : ℚ} {n : ℤ} (hv : 0 < v) (h : 2 ^ n ≤ v) (h' : v < 2 ^ (n + 1)) : Int.log 2 v = n := by
  have hle := (Int.zpow_le_iff_le_log (b := 2) (by decide) hv).mp (by exact_mod_cast h)
  have hlt := (Int.lt_zpow_iff_log_lt (b := 2) (by decide) hv).mp (by exact_mod_cast h')
  omega

/-- The exponent that rounding aims at is that of the value. -/
theorem targetExponent_spec {v : ℚ} (hv : 0 < v) (hlow : m * 2 ^ e ≤ v) (hhigh : v < (m + 1) * 2 ^ e)
    (he : e ≤ Format.binary64.targetExponent (totalExponent m e)) :
    Format.binary64.targetExponent (totalExponent m e) = max (Int.log 2 v - 52) (-1074) := by
  have hmin : Format.binary64.minExponent = -1074 := by decide
  have hbits : (Format.binary64.mantissaBits : ℤ) = 53 := by decide
  rw [Format.targetExponent, totalExponent, hmin, hbits] at he ⊢
  rcases Nat.eq_zero_or_pos m with rfl | hm
  · have hlog : Int.log 2 v < e := by
      rw [Nat.cast_zero, zero_add, one_mul] at hhigh
      exact (Int.lt_zpow_iff_log_lt (b := 2) (by decide) hv).mp (by exact_mod_cast hhigh)
    have hzero : Nat.log2 0 = 0 := by decide
    rw [hzero] at he ⊢
    omega
  · have hlog : Int.log 2 v = m.log2 + e := by
      refine log_eq hv ?_ ?_
      · calc (2 : ℚ) ^ ((m.log2 : ℤ) + e) = (2 ^ m.log2 : ℕ) * 2 ^ e := by
              rw [zpow_add₀ (by norm_num), zpow_natCast, Nat.cast_pow, Nat.cast_ofNat]
          _ ≤ m * 2 ^ e := by
              gcongr
              exact Nat.log2_self_le hm.ne'
          _ ≤ v := hlow
      · calc v < (m + 1) * 2 ^ e := hhigh
          _ ≤ (2 ^ (m.log2 + 1) : ℕ) * 2 ^ e := by
              gcongr
              exact_mod_cast Nat.lt_log2_self (n := m)
          _ = 2 ^ ((m.log2 : ℤ) + e + 1) := by
              rw [Nat.cast_pow, Nat.cast_ofNat, ← zpow_natCast, ← zpow_add₀ (by norm_num)]
              congr 1
              push_cast
              ring
    rw [hlog]
    omega

/-- What the model keeps of a value from 0 on. -/
inductive Rounded (v : ℚ) : UnpackedFloat → Prop
  | zero (h : roundToDouble v = 0) : Rounded v (.zero .positive)
  | finite {m : Nat} {e : ℤ} (hm : 0 < m) (h : Canonical m e) (hv : (m : ℚ) * 2 ^ e = roundToDouble v) :
    Rounded v (.finite .positive m e hm)

theorem Rounded.unique {v : ℚ} {u u' : UnpackedFloat} (h : Rounded v u) (h' : Rounded v u') : u = u' := by
  have hpos : ∀ {m : Nat} {e : ℤ}, 0 < m → (0 : ℚ) < m * 2 ^ e := fun hm => mul_pos (by exact_mod_cast hm) (two_zpow_pos _)
  cases h with
  | zero h =>
    cases h' with
    | zero => rfl
    | finite hm _ hv => exact absurd (hv.trans h) (hpos hm).ne'
  | finite hm hc hv =>
    cases h' with
    | zero h => exact absurd (hv.trans h) (hpos hm).ne'
    | finite hm' hc' hv' =>
      obtain ⟨rfl, rfl⟩ := hc.unique hc' (hv.trans hv'.symm)
      rfl

/-- A mantissa that rounding has made too long is shifted once more, and no other. -/
theorem shiftToTargetExponent_exact (hm : m ≤ 2 ^ 53) (he : -1074 ≤ e) :
    shiftToTargetExponent Format.binary64 m e .exact =
      if m = 2 ^ 53 then (⟨2 ^ 52, false, false⟩, e + 1) else (⟨m, false, false⟩, e) := by
  split
  · next heq =>
    have hshift := shiftToTargetExponent_eq (m := 2 ^ 52) (k := 1) (e := e + 1) (by decide) (by decide) (by omega)
    rw [heq, Nat.pow_succ, ← pow_one 2]
    have hexponent : e + 1 - ((1 : ℕ) : ℤ) = e := by omega
    rw [hexponent] at hshift
    exact hshift
  · next hne =>
    have hlog : m.log2 ≤ 52 := by
      rcases Nat.eq_zero_or_pos m with rfl | hpos
      · exact Nat.zero_le _
      · exact log2_le hpos (by omega)
    have hmin : Format.binary64.minExponent = -1074 := by decide
    have hbits : (Format.binary64.mantissaBits : ℤ) = 53 := by decide
    have htarget : Format.binary64.targetExponent (totalExponent m e) ≤ e := by
      rw [Format.targetExponent, totalExponent, hmin, hbits]
      omega
    have hshift : (Format.binary64.targetExponent (totalExponent m e) - e).toNat = 0 := by omega
    rw [shiftToTargetExponent, shiftToExponent, hshift, Nat.cast_zero, add_zero]
    rfl

/-- What is rounded is the nearest number of the value that mantissa, exponent and accuracy stand for. -/
theorem roundWithAccuracy_spec {v : ℚ} (hv : 0 < v)
    (hacc : Locates acc (v / 2 ^ e - m)) (he : e ≤ Format.binary64.targetExponent (totalExponent m e)) :
    Rounded v (roundWithAccuracy Format.binary64 .positive m e acc) := by
  have hstands := stands_ofMantissaAndAccuracy hacc
  have hmantissa : (ExtendedMantissa.ofMantissaAndAccuracy m acc).mantissa = m := by
    cases acc with
    | exact => rfl
    | inexact o => cases o <;> rfl
  obtain ⟨hlow, hhigh⟩ := hstands.bounds
  rw [hmantissa, le_div_iff₀ (two_zpow_pos e)] at hlow
  rw [hmantissa, div_lt_iff₀ (two_zpow_pos e)] at hhigh
  have htarget := targetExponent_spec hv hlow hhigh he
  obtain ⟨t, ht⟩ : ∃ t, t = max (Int.log 2 v - 52) (-1074) := ⟨_, rfl⟩
  rw [← ht] at htarget
  rw [htarget] at he
  have hulp : ulp v = 2 ^ t := by rw [ulp, abs_of_pos hv, ht]
  obtain ⟨em, hem⟩ : ∃ em, em = ExtendedMantissa.ofMantissaAndAccuracy m acc >>> (t - e).toNat := ⟨_, rfl⟩
  have hshift : shiftToTargetExponent Format.binary64 m e acc = (em, t) := by
    rw [shiftToTargetExponent, htarget, shiftToExponent, ← hem]
    congr 1
    omega
  have hem' : Stands em (v / 2 ^ t) := by
    have hsplit : (2 : ℚ) ^ t = 2 ^ e * 2 ^ (t - e).toNat := by
      rw [← zpow_natCast, ← zpow_add₀ (by norm_num)]
      congr 1
      omega
    rw [hem, hsplit, ← div_div]
    exact hstands.shiftRight _
  have hround := hem'.roundedMantissa
  obtain ⟨r, hr⟩ : ∃ r, r = em.roundedMantissa := ⟨_, rfl⟩
  rw [← hr] at hround
  have hvalue : (r : ℚ) * 2 ^ t = roundToDouble v := by
    rw [roundToDouble, hulp, ← hround, Int.cast_natCast]
  -- the rounded mantissa has 53 bits, or is the power of two behind these
  have hle : r ≤ 2 ^ 53 := by
    have hbelow : v / 2 ^ t ≤ ((2 ^ 53 : ℤ) : ℚ) := by
      rw [div_le_iff₀ (two_zpow_pos t)]
      calc v ≤ 2 ^ (Int.log 2 v + 1) := by exact_mod_cast (Int.lt_zpow_succ_log_self (b := 2) (by decide) v).le
        _ ≤ 2 ^ (53 + t) := zpow_le_zpow_right₀ (by norm_num) (by omega)
        _ = ((2 ^ 53 : ℤ) : ℚ) * 2 ^ t := by
          rw [zpow_add₀ (by norm_num)]
          norm_num
    have hmono := roundEven_mono hbelow
    rw [roundEven_intCast, ← hround] at hmono
    exact_mod_cast hmono
  have hfull : 2 ^ 52 ≤ r ∨ t = -1074 := by
    rcases eq_or_ne t (-1074) with hlow | hne
    · exact .inr hlow
    · left
      have habove : ((2 ^ 52 : ℤ) : ℚ) ≤ v / 2 ^ t := by
        rw [le_div_iff₀ (two_zpow_pos t)]
        calc ((2 ^ 52 : ℤ) : ℚ) * 2 ^ t = 2 ^ (52 + t) := by
              rw [zpow_add₀ (by norm_num)]
              norm_num
          _ ≤ 2 ^ Int.log 2 v := zpow_le_zpow_right₀ (by norm_num) (by omega)
          _ ≤ v := by exact_mod_cast Int.zpow_log_le_self (b := 2) (by decide) hv
      have hmono := roundEven_mono habove
      rw [roundEven_intCast, ← hround] at hmono
      exact_mod_cast hmono
  have hlow : -1074 ≤ t := by omega
  unfold roundWithAccuracy
  rw [hshift]
  dsimp only
  rw [← hr, shiftToTargetExponent_exact hle hlow]
  split
  · next hcarry =>
    have hcanonical : Canonical (2 ^ 52) (t + 1) := ⟨by decide, by omega, .inl (Nat.le_refl _)⟩
    have hpos : 0 < 2 ^ 52 := by decide
    refine .finite hpos hcanonical ?_
    rw [← hvalue, hcarry, zpow_add_one₀ (by norm_num)]
    push_cast
    ring
  · next hne =>
    dsimp only
    split
    · next hzero =>
      refine .zero ?_
      rw [← hvalue, hzero, Nat.cast_zero, zero_mul]
    · next hpos => exact .finite _ ⟨by omega, hlow, hfull⟩ hvalue

/-! ## The packed form -/

theorem unpack_pack_subnormal (hlt : m < 2 ^ 52) (hm : 0 < m) :
    (Float.Model.pack (.finite s m (-1074) hm)).unpack = .finite s m (-1074) hm := by
  have hbias : ((-1074 : ℤ) + Format.binary64.exponentBias + Format.binary64.mantissaBitsWithoutImplicit).toNat = 1 := by
    decide
  have hlog : m.log2 < 52 := (Nat.log2_lt hm.ne').mpr hlt
  have hbits : Format.binary64.mantissaBits = 53 := by decide
  change UnpackedFloat.unpack Format.binary64
    (UInt64.ofBitVec (UnpackedFloat.pack Format.binary64 (.finite s m (-1074) hm))).toBitVec = _
  rw [UInt64.toBitVec_ofBitVec]
  delta UnpackedFloat.pack
  dsimp only
  simp only [hbias]
  rw [if_neg (by decide), if_neg (by omega)]
  have hmantissa : (BitVec.ofNat 52 m).toNat = m := by
    rw [BitVec.toNat_ofNat, Nat.mod_eq_of_lt hlt]
  unfold UnpackedFloat.unpack
  simp only [unpackMantissa_packComponents, unpackExponent_packComponents, unpackSign_packComponents,
    Sign.ofBitVec_toBitVec]
  rw [if_neg (by decide), if_pos trivial, dif_neg]
  · congr 1
  · intro hzero
    have := congrArg BitVec.toNat hzero
    rw [hmantissa] at this
    exact hm.ne' this

/-- A canonical number that is not too large is packed as it is. -/
theorem unpack_pack_canonical (h : Canonical m e) (he : e ≤ 971) (hm : 0 < m) :
    (Float.Model.pack (.finite s m e hm)).unpack = .finite s m e hm := by
  by_cases hfull : 2 ^ 52 ≤ m
  · exact unpack_pack hfull h.lt h.le he hm
  · obtain rfl := h.full.resolve_left hfull
    exact unpack_pack_subnormal (Nat.not_le.mp hfull) hm

/-- The form of a finite number. -/
theorem canonical_unpack {x : Number} {h : 0 < m}
    (hx : x.toModel.unpack = .finite s m e h) : Canonical m e ∧ e ≤ 971 := by
  have hexponent : -1074 ≤ e ∧ e ≤ 971 := by
    change UnpackedFloat.unpack Format.binary64 _ = _ at hx
    unfold UnpackedFloat.unpack at hx
    dsimp only at hx
    split at hx
    · split at hx <;> cases hx
    · next hones =>
      obtain ⟨bits, hbits⟩ : ∃ bits : BitVec 11, bits = @unpackExponent Format.binary64 x.toModel.toBits.toBitVec :=
        ⟨_, rfl⟩
      have hlt : bits.toNat < 2 ^ 11 := bits.isLt
      have hbound : bits.toNat ≠ 2047 := by
        intro heq
        refine hones ?_
        change @unpackExponent Format.binary64 x.toModel.toBits.toBitVec = _
        rw [← hbits, ← BitVec.toNat_inj, heq]
        rfl
      split at hx
      · next hzero =>
        split at hx
        · cases hx
        · injection hx with _ _ he
          rw [hzero] at he
          have heq : e = -1074 := he.symm
          omega
      · next hnonzero =>
        injection hx with _ _ he
        change ((@unpackExponent Format.binary64 x.toModel.toBits.toBitVec).toNat : ℤ) - 1075 = e at he
        rw [← hbits] at he
        have hpos : bits.toNat ≠ 0 := by
          intro heq
          refine hnonzero ?_
          change @unpackExponent Format.binary64 x.toModel.toBits.toBitVec = _
          rw [← hbits, ← BitVec.toNat_inj, heq]
          rfl
        omega
  exact ⟨⟨mantissa_lt hx, hexponent.1, le_mantissa_or hx⟩, hexponent.2⟩

end Number

end Js
