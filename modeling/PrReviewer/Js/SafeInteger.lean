import PrReviewer.Js.Integer
import PrReviewer.Js.Text
import Mathlib.Tactic.Ring

/-!
# Safe integers

A safe integer from 1 on is held as `n * 2 ^ (52 - log2 n)` with the exponent `log2 n - 52` (`unpack_of_isSafeInteger`),
and so is the number that its decimal digits read back as (`unpack_ofScientific`).
-/

open Float.Model Float.Model.UnpackedFloat

namespace Js

namespace Number

/-! ## Shifts -/

theorem shiftRight_mul (m k : Nat) :
    ((⟨m * 2 ^ k, false, false⟩ : ExtendedMantissa) >>> k) = ⟨m, false, false⟩ := by
  induction k generalizing m with
  | zero =>
    change (⟨m * 2 ^ 0, false, false⟩ : ExtendedMantissa) = _
    rw [Nat.pow_zero, Nat.mul_one]
  | succ k ih =>
    have hsplit : m * 2 ^ (k + 1) = m * 2 * 2 ^ k := by ring
    change ((⟨m * 2 ^ (k + 1), false, false⟩ : ExtendedMantissa) >>> k).shiftRightOne = _
    rw [hsplit, ih]
    simp [ExtendedMantissa.shiftRightOne]

variable {m k : Nat} {e : Int} {y : Number}

/-- The number of digits of a mantissa with `k` digits more. -/
theorem log2_mul_pow (h : 0 < m) (k : Nat) : (m * 2 ^ k).log2 = m.log2 + k := by
  have hm : m ≠ 0 := by omega
  have hpos : m * 2 ^ k ≠ 0 := Nat.mul_ne_zero hm (Nat.two_pow_pos k).ne'
  rw [Nat.log2_eq_iff hpos]
  constructor
  · rw [Nat.pow_add]
    exact Nat.mul_le_mul_right _ (Nat.log2_self_le hm)
  · have hlt := Nat.lt_log2_self (n := m)
    calc m * 2 ^ k < 2 ^ (m.log2 + 1) * 2 ^ k := Nat.mul_lt_mul_of_pos_right hlt (Nat.two_pow_pos k)
      _ = 2 ^ (m.log2 + k + 1) := by ring

theorem log2_eq (h : 2 ^ 52 ≤ m) (h' : m < 2 ^ 53) : m.log2 = 52 :=
  (Nat.log2_eq_iff (by omega)).mpr ⟨h, h'⟩

theorem targetExponent_eq (h : 2 ^ 52 ≤ m) (h' : m < 2 ^ 53) (he : -1074 ≤ e) :
    Format.binary64.targetExponent (totalExponent (m * 2 ^ k) (e - k)) = e := by
  have hmin : Format.binary64.minExponent = -1074 := by decide
  have hbits : Format.binary64.mantissaBits = 53 := by decide
  rw [Format.targetExponent, totalExponent, log2_mul_pow (by omega), log2_eq h h', hmin, hbits]
  omega

theorem shiftToTargetExponent_eq (h : 2 ^ 52 ≤ m) (h' : m < 2 ^ 53) (he : -1074 ≤ e) :
    shiftToTargetExponent Format.binary64 (m * 2 ^ k) (e - k) .exact = (⟨m, false, false⟩, e) := by
  rw [shiftToTargetExponent, targetExponent_eq h h' he, shiftToExponent]
  have hshift : (e - (e - (k : Int))).toNat = k := by omega
  rw [hshift, ExtendedMantissa.ofMantissaAndAccuracy, shiftRight_mul]
  congr 1
  omega

/-- Rounding drops the zeros behind a mantissa of 53 digits. -/
theorem roundWithAccuracy_eq (h : 2 ^ 52 ≤ m) (h' : m < 2 ^ 53) (he : -1074 ≤ e) :
    roundWithAccuracy Format.binary64 .positive (m * 2 ^ k) (e - k) .exact =
      .finite .positive m e (by omega) := by
  have hfirst := shiftToTargetExponent_eq (k := k) h h' he
  have hagain := shiftToTargetExponent_eq (k := 0) h h' he
  rw [Nat.pow_zero, Nat.mul_one, Nat.cast_zero, Int.sub_zero] at hagain
  have hround : (⟨m, false, false⟩ : ExtendedMantissa).roundedMantissa = m := rfl
  have hpos : m ≠ 0 := by omega
  simp only [roundWithAccuracy, hfirst, hround, hagain, hpos, dite_false]

/-! ## The packed form -/

/-- The first digit of a mantissa is not stored. -/
theorem toNat_one_append (h : 2 ^ 52 ≤ m) (h' : m < 2 ^ 53) :
    (1#1 ++ BitVec.ofNat 52 m).toNat = m := by
  have hlt : m % 2 ^ 52 < 2 ^ 52 := Nat.mod_lt _ (Nat.two_pow_pos 52)
  have hrest : (BitVec.ofNat 52 m).toNat = m % 2 ^ 52 := BitVec.toNat_ofNat ..
  rw [BitVec.toNat_append, hrest, Nat.shiftLeft_eq, Nat.mul_comm, ← Nat.two_pow_add_eq_or_of_lt hlt]
  change 2 ^ 52 * 1 + m % 2 ^ 52 = m
  omega

theorem unpack_pack {s : Sign} (h : 2 ^ 52 ≤ m) (h' : m < 2 ^ 53) (he : -1074 ≤ e) (he' : e ≤ 971)
    (hm : 0 < m) : (Float.Model.pack (.finite s m e hm)).unpack = .finite s m e hm := by
  have hbias : (e + Format.binary64.exponentBias + Format.binary64.mantissaBitsWithoutImplicit).toNat =
      (e + 1075).toNat := by
    have hbits : (Format.binary64.exponentBias : Int) + Format.binary64.mantissaBitsWithoutImplicit = 1075 := by
      decide
    rw [Int.add_assoc, hbits]
  have hmantissa : m.log2 + 1 = Format.binary64.mantissaBits := by
    rw [log2_eq h h']
    rfl
  have hexponent : (BitVec.ofNat 11 (e + 1075).toNat).toNat = (e + 1075).toNat := by
    rw [BitVec.toNat_ofNat, Nat.mod_eq_of_lt (by omega)]
  change UnpackedFloat.unpack Format.binary64
    (UInt64.ofBitVec (UnpackedFloat.pack Format.binary64 (.finite s m e hm))).toBitVec = _
  rw [UInt64.toBitVec_ofBitVec]
  delta UnpackedFloat.pack
  dsimp only
  simp only [hbias]
  rw [if_neg (by omega), if_pos hmantissa]
  unfold UnpackedFloat.unpack
  simp only [unpackMantissa_packComponents, unpackExponent_packComponents, unpackSign_packComponents,
    Sign.ofBitVec_toBitVec]
  rw [if_neg, if_neg]
  · congr 1
    · exact toNat_one_append h h'
    · rw [hexponent]
      change ((e + 1075).toNat : Int) - 1075 = e
      omega
  · intro hzero
    have := congrArg BitVec.toNat hzero
    rw [hexponent] at this
    change (e + 1075).toNat = 0 at this
    omega
  · intro hones
    have := congrArg BitVec.toNat hones
    rw [hexponent] at this
    change (e + 1075).toNat = 2047 at this
    omega

/-! ## The form of an integer -/

/-- The mantissa of `n`, with 53 digits. -/
def mantissaOf (n : Nat) : Nat := n * 2 ^ (52 - n.log2)

/-- The exponent of `n`. -/
def exponentOf (n : Nat) : Int := n.log2 - 52

section Form

variable {n : Nat}

theorem log2_le (hn : 0 < n) (hn' : n < 2 ^ 53) : n.log2 ≤ 52 :=
  Nat.le_of_lt_succ ((Nat.log2_lt (by omega)).mpr hn')

theorem le_mantissaOf (hn : 0 < n) (hn' : n < 2 ^ 53) : 2 ^ 52 ≤ mantissaOf n := by
  have hlog := log2_le hn hn'
  calc 2 ^ 52 = 2 ^ n.log2 * 2 ^ (52 - n.log2) := by rw [← Nat.pow_add, Nat.add_sub_cancel' hlog]
    _ ≤ n * 2 ^ (52 - n.log2) := Nat.mul_le_mul_right _ (Nat.log2_self_le (by omega))

theorem mantissaOf_lt (hn : 0 < n) (hn' : n < 2 ^ 53) : mantissaOf n < 2 ^ 53 := by
  have hlog := log2_le hn hn'
  calc n * 2 ^ (52 - n.log2) < 2 ^ (n.log2 + 1) * 2 ^ (52 - n.log2) :=
        Nat.mul_lt_mul_of_pos_right Nat.lt_log2_self (Nat.two_pow_pos _)
    _ = 2 ^ 53 := by rw [← Nat.pow_add]; congr 1; omega

theorem mantissaOf_pos (hn : 0 < n) (hn' : n < 2 ^ 53) : 0 < mantissaOf n :=
  Nat.lt_of_lt_of_le (by decide) (le_mantissaOf hn hn')

theorem exponentOf_bounds (hn : 0 < n) (hn' : n < 2 ^ 53) : -52 ≤ exponentOf n ∧ exponentOf n ≤ 0 := by
  have hlog := log2_le hn hn'
  unfold exponentOf
  omega

/-- How a positive integer below `2 ^ 53` is held. -/
def formOf (hn : 0 < n) (hn' : n < 2 ^ 53) : UnpackedFloat :=
  .finite .positive (mantissaOf n) (exponentOf n) (mantissaOf_pos hn hn')

theorem unpack_pack_formOf (hn : 0 < n) (hn' : n < 2 ^ 53) :
    (Float.Model.pack (formOf hn hn')).unpack = formOf hn hn' := by
  obtain ⟨hlow, hhigh⟩ := exponentOf_bounds hn hn'
  exact unpack_pack (le_mantissaOf hn hn') (mantissaOf_lt hn hn') (by omega) (by omega) _

/-- Rounding a product with a power of two gives the form back. -/
theorem round_formOf (hn : 0 < n) (hn' : n < 2 ^ 53) (k : Nat) :
    roundWithAccuracy Format.binary64 .positive (mantissaOf n * 2 ^ k) (exponentOf n - k) .exact =
      formOf hn hn' := by
  obtain ⟨hlow, hhigh⟩ := exponentOf_bounds hn hn'
  exact roundWithAccuracy_eq (le_mantissaOf hn hn') (mantissaOf_lt hn hn') (by omega)

theorem unpackedOfNat_eq (hn : 0 < n) (hn' : n < 2 ^ 53) :
    UnpackedFloat.ofNat Format.binary64 n = formOf hn hn' := by
  have hlog := log2_le hn hn'
  have hsign : compare (n : Int) 0 = .gt := compare_gt_iff_gt.mpr (by omega)
  have htarget : Format.binary64.targetExponent (totalExponent n 0) = exponentOf n := by
    have hmin : Format.binary64.minExponent = -1074 := by decide
    have hbits : Format.binary64.mantissaBits = 53 := by decide
    rw [Format.targetExponent, totalExponent, hmin, hbits, exponentOf]
    omega
  have hshift : (0 - exponentOf n).toNat = 52 - n.log2 := by
    rw [exponentOf]
    omega
  have hdown : decreaseExponent n 0 (exponentOf n) = (mantissaOf n, exponentOf n) := by
    rw [decreaseExponent, hshift, Nat.shiftLeft_eq, mantissaOf, exponentOf]
    congr 1
    omega
  have hround := round_formOf hn hn' 0
  rw [Nat.pow_zero, Nat.mul_one, Nat.cast_zero, Int.sub_zero] at hround
  rw [UnpackedFloat.ofNat, UnpackedFloat.ofInt, UnpackedFloat.normalize, hsign]
  simp only [UnpackedFloat.round, Int.toNat_natCast, htarget, hdown, hround]

/-- The digits of a safe integer read back as it. -/
theorem unpack_ofScientific (hn : 0 < n) (hn' : n < 2 ^ 53) :
    (Float.ofScientific n false 0).toModel.unpack = formOf hn hn' := by
  have hone : (Float.ofBits 0x3FF0000000000000).toModel.unpack =
      .finite .positive (2 ^ 52) (-52) (by decide) := by
    with_unfolding_all rfl
  have hnat : n.toUInt64.toNat = n := UInt64.toNat_ofNat_of_lt (by rw [UInt64.size]; omega)
  have hround := round_formOf hn hn' 52
  rw [Float.ofScientific, dif_pos ⟨hn', by decide⟩]
  change (Float.Model.pack (UnpackedFloat.mul Format.binary64
    (Float.Model.pack (UnpackedFloat.ofNat Format.binary64 n.toUInt64.toNat)).unpack
    (Float.ofBits 0x3FF0000000000000).toModel.unpack)).unpack = _
  rw [hnat, unpackedOfNat_eq hn hn', unpack_pack_formOf, hone]
  change (Float.Model.pack (roundWithAccuracy Format.binary64 .positive (mantissaOf n * 2 ^ 52)
    (exponentOf n - (52 : Nat)) .exact)).unpack = _
  rw [hround, unpack_pack_formOf]

variable {m : Nat} {e : Int}

/-- A mantissa has 53 digits, unless the exponent is the lowest one. -/
theorem le_mantissa_or {x : Number} {s : Sign} {h : 0 < m}
    (hx : x.toModel.unpack = .finite s m e h) : 2 ^ 52 ≤ m ∨ e = -1074 := by
  change UnpackedFloat.unpack Format.binary64 _ = _ at hx
  unfold UnpackedFloat.unpack at hx
  dsimp only at hx
  split at hx
  · split at hx <;> cases hx
  · split at hx
    · next hexponent =>
      split at hx
      · cases hx
      · injection hx with _ _ he
        rw [hexponent] at he
        exact .inr he.symm
    · injection hx with _ hm
      rw [← hm, BitVec.toNat_append, Nat.shiftLeft_eq]
      exact .inl (Nat.left_le_or)

theorem exponent_le {x : Number} {h : 0 < m} (hx : x.toModel.unpack = .finite .positive m e h)
    (hle : x ≤ maxSafeInteger) : e ≤ 0 := by
  rw [le_iff_compare, unpack_maxSafeInteger, hx] at hle
  by_contra hne
  have hgt : compare e 0 = .gt := compare_gt_iff_gt.mpr (by omega)
  simp [UnpackedFloat.compare, hgt, Ordering.isLE] at hle

/-- A number above 0 that is an integer is finite and positive. -/
theorem exists_finite {x : Number} (hx : isInteger x = true) (hpos : 0 < x) :
    ∃ (m : Nat) (e : Int) (h : 0 < m), x.toModel.unpack = .finite .positive m e h := by
  rw [lt_iff_compare, unpack_zero] at hpos
  unfold isInteger at hx
  cases hu : x.toModel.unpack with
  | notANumber => rw [hu] at hx; cases hx
  | infinity s => rw [hu] at hx; cases hx
  | zero s => rw [hu] at hpos; cases hpos
  | finite s m e hm =>
    rw [hu] at hpos
    cases s with
    | negative => cases hpos
    | positive => exact ⟨m, e, hm, rfl⟩

/-- A safe integer above 0 stands for a natural number and has its form. -/
theorem unpack_of_isSafeInteger {x : Number} (hx : isSafeInteger x = true) (hpos : 0 < x) :
    ∃ (n : Nat) (hn : 0 < n) (hn' : n < 2 ^ 53), x.toModel.unpack = formOf hn hn' := by
  simp only [isSafeInteger, Bool.and_eq_true, decide_eq_true_eq] at hx
  obtain ⟨⟨hinteger, -⟩, hle⟩ := hx
  obtain ⟨m, e, hm, hu⟩ := exists_finite hinteger hpos
  have he := exponent_le hu hle
  have hlt := mantissa_lt hu
  have hdvd : 2 ^ (-e).toNat ∣ m := by
    rw [isInteger, hu] at hinteger
    simp only [Bool.or_eq_true, decide_eq_true_eq, beq_iff_eq] at hinteger
    rcases hinteger with h | h
    · obtain rfl : e = 0 := by omega
      simp
    · exact Nat.dvd_of_mod_eq_zero h
  rcases le_mantissa_or hu with hlow | rfl
  · obtain ⟨n, hn⟩ := hdvd
    rw [Nat.mul_comm] at hn
    have hpos : 0 < n := Nat.pos_of_mul_pos_right (by rw [← hn]; exact hm)
    have hlog : n.log2 + (-e).toNat = 52 := by
      rw [← log2_mul_pow hpos, ← hn, log2_eq hlow hlt]
    have hle : n ≤ m := by
      rw [hn]
      exact Nat.le_mul_of_pos_right n (Nat.two_pow_pos _)
    refine ⟨n, hpos, by omega, ?_⟩
    have hshift : 52 - n.log2 = (-e).toNat := by omega
    have hmantissa : m = mantissaOf n := by rw [mantissaOf, hshift, hn]
    have hexponent : e = exponentOf n := by
      rw [exponentOf]
      omega
    rw [hu, formOf]
    subst hmantissa hexponent
    rfl
  · have hbound : 2 ^ 53 ≤ 2 ^ (-(-1074 : Int)).toNat := Nat.pow_le_pow_right (by decide) (by decide)
    have := Nat.le_of_dvd hm hdvd
    omega

end Form

/-! ## The search for the shortest digits -/

section Search

variable {x : Number} {n d digits : Nat}

variable {c : Nat}

theorem stripZeros_spec {fuel c' : Nat} {q q' : Int} (h : stripZeros fuel c q = (c', q')) :
    ∃ t : Nat, c = c' * 10 ^ t ∧ q' = q + t := by
  induction fuel generalizing c q with
  | zero =>
    cases h
    exact ⟨0, by simp, by simp⟩
  | succ fuel ih =>
    rw [stripZeros] at h
    split at h
    · next hzero =>
      obtain ⟨t, hc, hq⟩ := ih h
      refine ⟨t + 1, ?_, by omega⟩
      rw [Nat.pow_succ, ← Nat.mul_assoc, ← hc]
      omega
    · cases h
      exact ⟨0, by simp, by simp⟩

end Search

/-! ## The text of an integer -/

/-- The number that the digits of a text stand for. -/
def ofDigits (text : String) : Number := ofDecimal (Nat.ofDigitChars 10 text.toList 0) 0

theorem beq_ofScientific {x : Number} {n : Nat} {hn : 0 < n} {hn' : n < 2 ^ 53}
    (h : x.toModel.unpack = formOf hn hn') : (ofDecimal n 0 == x) = true := by
  change UnpackedFloat.beq (ofDecimal n 0).toModel.unpack x.toModel.unpack = true
  have hvalue : ofDecimal n 0 = Float.ofScientific n false 0 := by
    simp [ofDecimal]
  rw [hvalue, unpack_ofScientific hn hn', h]
  delta UnpackedFloat.beq
  simp [formOf, UnpackedFloat.compare]

/-! ## Equal texts -/

theorem beq_iff_rank {x : Number} (hx : x.isNaN = false) (hy : y.isNaN = false) :
    (x == y) = true ↔ rank x = rank y := by
  have hlt := lt_iff_rank hx hy
  have hgt := lt_iff_rank hy hx
  rw [lt_iff_compare] at hlt hgt
  rw [compare_swap] at hgt
  have hb : (x == y) = (UnpackedFloat.compare x.toModel.unpack y.toModel.unpack == some .eq) := rfl
  have hsome := compare_ne_none (unpack_ne hx) (unpack_ne hy)
  rw [hb]
  revert hlt hgt hsome
  cases UnpackedFloat.compare x.toModel.unpack y.toModel.unpack with
  | none => simp
  | some o =>
    rcases lt_trichotomy (rank x) (rank y) with h | h | h
    · cases o <;> simp [h, h.ne, h.not_gt]
    · cases o <;> simp [h]
    · cases o <;> simp [h, h.ne', h.not_gt]

theorem not_isNaN_of_beq {x : Number} (h : (x == y) = true) : x.isNaN = false ∧ y.isNaN = false := by
  obtain ⟨hx, hy, -⟩ := Float.beq_iff_ne_nan_and_eq.mp h
  simp [hx, hy]

theorem beq_of_beq {x z : Number} (h : (z == x) = true) (h' : (z == y) = true) : (x == y) = true := by
  obtain ⟨hz, hx⟩ := not_isNaN_of_beq h
  obtain ⟨-, hy⟩ := not_isNaN_of_beq h'
  rw [beq_iff_rank hx hy, ← (beq_iff_rank hz hx).mp h, (beq_iff_rank hz hy).mp h']

theorem beq_self_of {x : Number} (h : x.isNaN = false) : (x == x) = true := (beq_iff_rank h h).mpr rfl

theorem numberToString_of_zero {x : Number} (h : (x == 0) = true) : numberToString x = "0" := by
  have hnan : ¬x.isNaN = true := Bool.eq_false_iff.mp (not_isNaN_of_beq h).1
  rw [numberToString, if_neg hnan, if_pos h]

/-- The text depends on the form of the number only. -/
theorem shortest_congr {x : Number} (h : x.toModel.unpack = y.toModel.unpack) (num den : Nat) (n : Int)
    (fuel k : Nat) : shortest x num den n fuel k = shortest y num den n fuel k := by
  have hbeq : ∀ z : Number, (z == x) = (z == y) := by
    intro z
    change UnpackedFloat.beq z.toModel.unpack x.toModel.unpack =
      UnpackedFloat.beq z.toModel.unpack y.toModel.unpack
    rw [h]
  induction fuel generalizing k with
  | zero => rfl
  | succ fuel ih =>
    simp only [shortest, hbeq]
    split
    · rfl
    · exact ih (k + 1)

theorem positiveToString_congr {x : Number} (h : x.toModel.unpack = y.toModel.unpack) :
    positiveToString x = positiveToString y := by
  simp only [positiveToString, fraction, h, shortest_congr h]

end Number

end Js