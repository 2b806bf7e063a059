import PrReviewer.Js.Nearest

/-!
# Decimals and numbers

`ofDecimal s q` is the number next to `s * 10 ^ q` (`ofDecimal_spec`), so it depends on that value only
(`ofDecimal_congr`), and it is `x` for every decimal that is nearer to `x` than half the distance of the numbers there
(`ofDecimal_near`). Hence the search for the shortest digits ends with some that read back as the number
(`exists_shortest`): the closest decimal of 17 digits is near enough.
-/

open Float.Model Float.Model.UnpackedFloat List

namespace Js

namespace Number

/-- The number is the one next to the value. -/
def IsRounded (v : ℚ) (x : Number) : Prop := ∃ u, Rounded v u ∧ x.toModel = Float.Model.pack u

variable {v : ℚ} {y : Number} {n s : Nat} {q : ℤ}

theorem IsRounded.congr {x : Number} (h : IsRounded v x) (h' : IsRounded v y) : x.toModel = y.toModel := by
  obtain ⟨u, hu, hx⟩ := h
  obtain ⟨u', hu', hy⟩ := h'
  rw [hx, hy, hu.unique hu']

/-! ## Products and quotients -/

theorem rounded_product {m : Nat} {e : ℤ} (hm : 2 ^ 52 ≤ m) :
    Rounded (m * 2 ^ e) (roundWithAccuracy Format.binary64 .positive m e .exact) := by
  have hpos : (0 : ℚ) < m := by exact_mod_cast Nat.lt_of_lt_of_le (by decide) hm
  have hlog : 52 ≤ m.log2 := (Nat.le_log2 (by omega)).mpr hm
  have hmin : Format.binary64.minExponent = -1074 := by decide
  have hbits : (Format.binary64.mantissaBits : ℤ) = 53 := by decide
  refine roundWithAccuracy_spec (mul_pos hpos (two_zpow_pos e)) ?_ ?_
  · rw [Locates, mul_div_cancel_right₀ _ (two_zpow_pos e).ne', sub_self]
  · rw [Format.targetExponent, totalExponent, hmin, hbits]
    omega

theorem locates_accuracyOfFraction {r d : Nat} (hd : 0 < d) (h : r < d) : Locates (accuracyOfFraction r d) (r / d) := by
  have hd' : (0 : ℚ) < d := by exact_mod_cast hd
  have hone : (r : ℚ) / d < 1 := (div_lt_one hd').mpr (by exact_mod_cast h)
  unfold accuracyOfFraction
  split
  · next hzero =>
    rw [hzero, Locates, Nat.cast_zero, zero_div]
  · next hne =>
    have hpos : (0 : ℚ) < r / d := div_pos (by exact_mod_cast Nat.pos_of_ne_zero hne) hd'
    cases hcompare : compare (2 * r) d with
    | lt =>
      have hlt : (2 * r : ℚ) < d := by exact_mod_cast Nat.compare_eq_lt.mp hcompare
      refine ⟨hpos, ?_⟩
      rw [div_lt_iff₀ hd']
      linarith
    | eq =>
      have heq : (2 * r : ℚ) = d := by exact_mod_cast Nat.compare_eq_eq.mp hcompare
      rw [Locates, div_eq_iff hd'.ne']
      linarith
    | gt =>
      have hgt : (d : ℚ) < 2 * r := by exact_mod_cast Nat.compare_eq_gt.mp hcompare
      refine ⟨?_, hone⟩
      rw [lt_div_iff₀ hd']
      linarith

theorem rounded_quotient {m₁ m₂ : Nat} {e₁ e₂ : ℤ} (h₁ : 0 < m₁) (h₂ : 0 < m₂) :
    Rounded (m₁ * 2 ^ e₁ / (m₂ * 2 ^ e₂)) (roundWithAccuracy Format.binary64 .positive
      (divCore Format.binary64 m₁ e₁ m₂ e₂).1 (divCore Format.binary64 m₁ e₁ m₂ e₂).2.1
      (divCore Format.binary64 m₁ e₁ m₂ e₂).2.2) := by
  have hm₁ : (0 : ℚ) < m₁ := by exact_mod_cast h₁
  have hm₂ : (0 : ℚ) < m₂ := by exact_mod_cast h₂
  have hmin : Format.binary64.minExponent = -1074 := by decide
  have hbits : (Format.binary64.mantissaBits : ℤ) = 53 := by decide
  obtain ⟨t, ht⟩ : ∃ t, t = min (e₁ - e₂)
    (Format.binary64.targetExponent (totalExponent m₁ e₁ - totalExponent m₂ e₂)) := ⟨_, rfl⟩
  have hcore : divCore Format.binary64 m₁ e₁ m₂ e₂ = (m₁ * 2 ^ (e₁ - e₂ - t).toNat / m₂, t,
      accuracyOfFraction (m₁ * 2 ^ (e₁ - e₂ - t).toNat % m₂) m₂) := by
    rw [divCore, ← ht]
    simp only [Nat.shiftLeft_eq]
  rw [hcore]
  dsimp only
  obtain ⟨n, hn⟩ : ∃ n, n = m₁ * 2 ^ (e₁ - e₂ - t).toNat := ⟨_, rfl⟩
  rw [← hn]
  refine roundWithAccuracy_spec (by positivity) ?_ ?_
  · have hvalue : (m₁ : ℚ) * 2 ^ e₁ / (m₂ * 2 ^ e₂) / 2 ^ t = n / m₂ := by
      have hsplit : (2 : ℚ) ^ e₁ = 2 ^ (e₁ - e₂ - t).toNat * 2 ^ e₂ * 2 ^ t := by
        rw [← zpow_natCast, ← zpow_add₀ (by norm_num), ← zpow_add₀ (by norm_num)]
        congr 1
        omega
      have htwo := two_zpow_pos e₂
      have htwo' := two_zpow_pos t
      rw [hn, hsplit]
      push_cast
      field_simp
    have hdiv : (n : ℚ) / m₂ - (n / m₂ : ℕ) = (n % m₂ : ℕ) / m₂ := by
      rw [sub_eq_iff_eq_add, div_eq_iff hm₂.ne', add_mul, div_mul_cancel₀ _ hm₂.ne']
      exact_mod_cast (Nat.mod_add_div' n m₂).symm
    rw [hvalue, hdiv]
    exact locates_accuracyOfFraction h₂ (Nat.mod_lt _ h₂)
  · rw [Format.targetExponent, totalExponent, hmin, hbits]
    rw [Format.targetExponent, totalExponent, totalExponent, hmin, hbits] at ht
    by_cases hlow : t ≤ -1074
    · omega
    · -- the quotient has 53 bits at least
      have hquotient : 2 ^ 52 ≤ n / m₂ := by
        rw [Nat.le_div_iff_mul_le h₂, hn]
        calc 2 ^ 52 * m₂ ≤ 2 ^ 52 * 2 ^ (m₂.log2 + 1) := Nat.mul_le_mul_left _ Nat.lt_log2_self.le
          _ = 2 ^ (53 + m₂.log2) := by rw [← Nat.pow_add]; congr 1; omega
          _ ≤ 2 ^ (m₁.log2 + (e₁ - e₂ - t).toNat) := Nat.pow_le_pow_right (by decide) (by omega)
          _ = 2 ^ m₁.log2 * 2 ^ (e₁ - e₂ - t).toNat := Nat.pow_add ..
          _ ≤ m₁ * 2 ^ (e₁ - e₂ - t).toNat := Nat.mul_le_mul_right _ (Nat.log2_self_le h₁.ne')
      have hlog : 52 ≤ (n / m₂).log2 := (Nat.le_log2 (by omega)).mpr hquotient
      omega

/-! ## Decimals -/

theorem formOf_value (hn : 0 < n) (hn' : n < 2 ^ 53) :
    (mantissaOf n : ℚ) * 2 ^ exponentOf n = n := by
  have hlog := log2_le hn hn'
  have hexponent : exponentOf n = -((52 - n.log2 : ℕ) : ℤ) := by
    rw [exponentOf]
    omega
  have htwo : (2 : ℚ) ^ (52 - n.log2) ≠ 0 := by positivity
  rw [mantissaOf, hexponent, zpow_neg, zpow_natCast]
  push_cast
  rw [mul_assoc, mul_inv_cancel₀ htwo, mul_one]

/-- An integer below `2 ^ 53` as a number. -/
theorem unpack_toFloat (hn : 0 < n) (hn' : n < 2 ^ 53) :
    n.toUInt64.toFloat.toModel.unpack = formOf hn hn' := by
  have hnat : n.toUInt64.toNat = n := UInt64.toNat_ofNat_of_lt (by rw [UInt64.size]; omega)
  change (Float.Model.pack (UnpackedFloat.ofNat Format.binary64 n.toUInt64.toNat)).unpack = _
  rw [hnat, unpackedOfNat_eq hn hn', unpack_pack_formOf]

theorem ofScientific_isRounded (hn : 0 < n) : IsRounded n (Float.ofScientific n false 0) := by
  by_cases hsmall : n < 2 ^ 53
  · have hone : (Float.ofBits 0x3FF0000000000000).toModel.unpack =
        .finite .positive (2 ^ 52) (-52) (by decide) := by
      with_unfolding_all rfl
    have hrounded := @rounded_product (mantissaOf n * 2 ^ 52) (exponentOf n + -52)
      (Nat.le_mul_of_pos_left _ (mantissaOf_pos hn hsmall))
    have hvalue : ((mantissaOf n * 2 ^ 52 : ℕ) : ℚ) * 2 ^ (exponentOf n + -52) = n := by
      rw [zpow_add₀ (by norm_num), ← formOf_value hn hsmall]
      push_cast
      ring
    rw [hvalue] at hrounded
    refine ⟨_, hrounded, ?_⟩
    rw [Float.ofScientific, dif_pos ⟨hsmall, by decide⟩]
    change Float.Model.pack (UnpackedFloat.mul Format.binary64 n.toUInt64.toFloat.toModel.unpack
      (Float.ofBits 0x3FF0000000000000).toModel.unpack) = _
    rw [unpack_toFloat hn hsmall, hone]
    rfl
  · have hlarge : 2 ^ 52 ≤ n <<< 53 * 10 ^ (0 : ℤ).toNat := by
      rw [Nat.shiftLeft_eq, Int.toNat_zero, Nat.pow_zero, Nat.mul_one]
      calc 2 ^ 52 ≤ 1 * 2 ^ 53 := by decide
        _ ≤ n * 2 ^ 53 := Nat.mul_le_mul_right _ hn
    have hrounded := @rounded_product _ (-53 + 0) hlarge
    have hvalue : ((n <<< 53 * 10 ^ (0 : ℤ).toNat : ℕ) : ℚ) * 2 ^ (-53 + 0 : ℤ) = n := by
      rw [Nat.shiftLeft_eq]
      push_cast
      norm_num
      ring
    rw [hvalue] at hrounded
    have hbits : (2 : ℤ) ^ Format.binary64.exponentBits = 2048 := by decide
    refine ⟨_, hrounded, ?_⟩
    rw [Float.ofScientific, dif_neg fun h => hsmall h.1]
    change Float.Model.pack (UnpackedFloat.ofScientific Format.binary64 n 0) = _
    rw [UnpackedFloat.ofScientific, dif_neg hn.ne', if_neg (by decide),
      if_neg (by rw [hbits]; omega), if_pos (Int.le_refl 0)]
    rfl

/-- A mantissa and an exponent of a positive number. -/
def parts : UnpackedFloat → Option (Nat × ℤ)
  | .finite .positive m e _ => some (m, e)
  | _ => none

theorem exists_of_parts {u : UnpackedFloat} {m : Nat} {e : ℤ} (h : parts u = some (m, e)) :
    ∃ hm, u = .finite .positive m e hm := by
  unfold parts at h
  split at h
  · next m' e' hm =>
    cases h
    exact ⟨hm, rfl⟩
  · cases h

/-- The powers of ten of the table. -/
theorem unpack_power (k : Nat) (hk : k < Float.exactlyRepresentablePowersOfTen.size) :
    ∃ (p : Nat) (e : ℤ) (hp : 0 < p), Float.exactlyRepresentablePowersOfTen[k].toModel.unpack = .finite .positive p e hp ∧
      (p : ℚ) * 2 ^ e = 10 ^ k := by
  have htable : ∀ k : Fin 23, parts (Float.exactlyRepresentablePowersOfTen[k]).toModel.unpack =
      some (10 ^ k.val * 2 ^ 52 / 2 ^ (10 ^ k.val).log2, ((10 ^ k.val).log2 : ℤ) - 52) := by decide +kernel
  have hexact : ∀ k : Fin 23, 10 ^ k.val * 2 ^ 52 / 2 ^ (10 ^ k.val).log2 * 2 ^ (10 ^ k.val).log2 =
      10 ^ k.val * 2 ^ 52 := by decide +kernel
  obtain ⟨hp, hunpack⟩ := exists_of_parts (htable ⟨k, hk⟩)
  refine ⟨_, _, hp, hunpack, ?_⟩
  have hvalue := hexact ⟨k, hk⟩
  dsimp only at hvalue ⊢
  obtain ⟨p, hp⟩ : ∃ p, p = 10 ^ k * 2 ^ 52 / 2 ^ (10 ^ k).log2 := ⟨_, rfl⟩
  rw [← hp] at hvalue ⊢
  have hcast : (p : ℚ) * 2 ^ (10 ^ k).log2 = 10 ^ k * 2 ^ 52 := by exact_mod_cast hvalue
  rw [zpow_sub₀ (by norm_num), zpow_natCast, ← mul_div_assoc, hcast]
  norm_num

theorem ofScientific_neg_isRounded {k : Nat} (hn : 0 < n) (hk : 0 < k) (hk' : k ≤ 2048) :
    IsRounded (n / 10 ^ k) (Float.ofScientific n true k) := by
  by_cases hfast : n < 2 ^ 53 ∧ k ≤ 22
  · have hsize : k < Float.exactlyRepresentablePowersOfTen.size := by
      simp [Float.exactlyRepresentablePowersOfTen]
      omega
    obtain ⟨p, e, hp, hunpack, hpower⟩ := unpack_power k hsize
    have hrounded := @rounded_quotient (mantissaOf n) p (exponentOf n) e (mantissaOf_pos hn hfast.1) hp
    rw [formOf_value hn hfast.1, hpower] at hrounded
    refine ⟨_, hrounded, ?_⟩
    rw [Float.ofScientific, dif_pos hfast]
    change Float.Model.pack (UnpackedFloat.div Format.binary64 n.toUInt64.toFloat.toModel.unpack
      Float.exactlyRepresentablePowersOfTen[k].toModel.unpack) = _
    rw [unpack_toFloat hn hfast.1, hunpack]
    rfl
  · have hrounded := @rounded_quotient n (10 ^ k) 0 0 hn (Nat.pow_pos (by decide))
    have hvalue : (n : ℚ) * 2 ^ (0 : ℤ) / ((10 ^ k : ℕ) * 2 ^ (0 : ℤ)) = n / 10 ^ k := by
      rw [zpow_zero, mul_one, mul_one]
      push_cast
      rfl
    rw [hvalue] at hrounded
    have hbits : (2 : ℤ) ^ Format.binary64.exponentBits = 2048 := by decide
    have hneg : Int.negOfNat k = -(k : ℤ) := Int.negOfNat_eq
    have hshift : (-Int.negOfNat k).toNat = k := by omega
    refine ⟨_, hrounded, ?_⟩
    rw [Float.ofScientific, dif_neg hfast]
    change Float.Model.pack (UnpackedFloat.ofScientific Format.binary64 n (Int.negOfNat k)) = _
    rw [UnpackedFloat.ofScientific, dif_neg hn.ne', if_neg (by rw [hbits]; omega), if_neg (by rw [hbits]; omega),
      if_neg (by omega)]
    simp only [hshift]
    rfl

/-- The decimal as an exact value. -/
def decimalValue (s : Nat) (q : ℤ) : ℚ := s * 10 ^ q

/-- A decimal is read as the number next to it. -/
theorem ofDecimal_spec (hs : 0 < s) (hq : -2048 ≤ q) : IsRounded (decimalValue s q) (ofDecimal s q) := by
  unfold ofDecimal decimalValue
  split
  · next hpos =>
    have hrounded := ofScientific_isRounded (n := s * 10 ^ q.toNat) (Nat.mul_pos hs (Nat.pow_pos (by decide)))
    have hvalue : ((s * 10 ^ q.toNat : ℕ) : ℚ) = s * 10 ^ q := by
      have hq' : q = (q.toNat : ℤ) := by omega
      conv_rhs => rw [hq', zpow_natCast]
      push_cast
      rfl
    rwa [hvalue] at hrounded
  · next hneg =>
    have hrounded := ofScientific_neg_isRounded (n := s) (k := (-q).toNat) hs (by omega) (by omega)
    have hvalue : (s : ℚ) / 10 ^ (-q).toNat = s * 10 ^ q := by
      have hq' : q = -((-q).toNat : ℤ) := by omega
      conv_rhs => rw [hq', zpow_neg, zpow_natCast]
      rfl
    rwa [hvalue] at hrounded

/-- Decimals of one value are read as one number. -/
theorem ofDecimal_congr {s' : Nat} {q' : ℤ} (hs : 0 < s) (hs' : 0 < s') (hq : -2048 ≤ q) (hq' : -2048 ≤ q')
    (h : decimalValue s q = decimalValue s' q') : (ofDecimal s q).toModel = (ofDecimal s' q').toModel := by
  have hrounded := ofDecimal_spec hs' hq'
  rw [← h] at hrounded
  exact (ofDecimal_spec hs hq).congr hrounded

/-! ## Values near a number -/

theorem roundEven_near {w : ℚ} {k : ℤ} (h : |w - k| < 1 / 2) : roundEven w = k := by
  rw [abs_lt] at h
  rcases le_or_gt (k : ℚ) w with hle | hlt
  · have hfloor : ⌊w⌋ = k := Int.floor_eq_iff.mpr ⟨hle, by linarith⟩
    have hfract : Int.fract w = w - k := by rw [Int.fract, hfloor]
    rw [roundEven, hfract, hfloor, if_pos (.inl (by linarith))]
  · have hfloor : ⌊w⌋ = k - 1 := Int.floor_eq_iff.mpr ⟨by push_cast; linarith, by push_cast; linarith⟩
    have hfract : Int.fract w = w - k + 1 := by
      rw [Int.fract, hfloor]
      push_cast
      ring
    rw [roundEven, hfract, hfloor, if_neg]
    · omega
    · rintro (hlow | ⟨heq, -⟩) <;> linarith

/-- Nearer to a number than a quarter of the distance to the next one below, at least, a value is rounded to it. -/
theorem roundToDouble_near {m : Nat} {e : ℤ} (h : Canonical m e) (hm : 0 < m)
    (hv : |v - m * 2 ^ e| < m * 2 ^ e / 2 ^ 54) : roundToDouble v = m * 2 ^ e := by
  have htwo := two_zpow_pos e
  have hm' : (1 : ℚ) ≤ m := by exact_mod_cast hm
  have hlt : (m : ℚ) + 1 ≤ 2 ^ 53 := by exact_mod_cast h.lt
  obtain ⟨w, hw⟩ : ∃ w, w = v / 2 ^ e := ⟨_, rfl⟩
  have hvw : v = w * 2 ^ e := by rw [hw, div_mul_cancel₀ _ htwo.ne']
  have hnear : |w - m| < m / 2 ^ 54 := by
    rw [hvw, ← sub_mul, abs_mul, abs_of_pos htwo, mul_div_right_comm] at hv
    exact lt_of_mul_lt_mul_right hv htwo.le
  obtain ⟨hlow, hhigh⟩ := abs_lt.mp hnear
  have hwpos : 0 < w := by
    have hquarter : (m : ℚ) / 2 ^ 54 ≤ m / 2 := by
      gcongr
      norm_num
    linarith
  have hvpos : 0 < v := by rw [hvw]; positivity
  have hhalf : (m : ℚ) / 2 ^ 54 < 1 / 2 := by
    rw [div_lt_div_iff₀ (by norm_num) (by norm_num)]
    linarith
  have hupper : ∀ n : ℕ, (m : ℚ) + 1 / 2 ≤ 2 ^ n → Int.log 2 v < n + e := by
    intro n hn
    refine (Int.lt_zpow_iff_log_lt (b := 2) (by decide) hvpos).mp ?_
    push_cast
    rw [hvw, zpow_add₀ (by norm_num), zpow_natCast]
    exact mul_lt_mul_of_pos_right (by linarith) htwo
  have hlower : ∀ n : ℕ, (2 : ℚ) ^ n ≤ w → n + e ≤ Int.log 2 v := by
    intro n hn
    refine (Int.zpow_le_iff_le_log (b := 2) (by decide) hvpos).mp ?_
    push_cast
    rw [hvw, zpow_add₀ (by norm_num), zpow_natCast]
    exact mul_le_mul_of_nonneg_right hn htwo.le
  obtain ⟨t, ht⟩ : ∃ t, t = max (Int.log 2 v - 52) (-1074) := ⟨_, rfl⟩
  have hulp : ulp v = 2 ^ t := by rw [ulp, abs_of_pos hvpos, ht]
  have htop := hupper 53 (by linarith)
  -- below a power of two the numbers are twice as close
  have hexponent : t = e ∨ (t = e - 1 ∧ m = 2 ^ 52) := by
    have hle := h.le
    rcases lt_trichotomy m (2 ^ 52) with hsmall | heq | hlarge
    · have hbelow := hupper 52 (by
        have : (m : ℚ) + 1 ≤ 2 ^ 52 := by exact_mod_cast hsmall
        linarith)
      have he : e = -1074 := h.full.resolve_left (by omega)
      omega
    · have hcast : (m : ℚ) = 2 ^ 52 := by exact_mod_cast heq
      have habove := hlower 51 (by rw [hcast] at hlow hhalf; norm_num at hlow hhalf ⊢; linarith)
      omega
    · have habove := hlower 52 (by
        have : (2 : ℚ) ^ 52 + 1 ≤ m := by exact_mod_cast hlarge
        linarith)
      omega
  rw [roundToDouble, hulp]
  rcases hexponent with rfl | ⟨rfl, heq⟩
  · rw [← hw, roundEven_near (k := m) (by push_cast; exact hnear.trans hhalf), Int.cast_natCast]
  · have hdouble : v / 2 ^ (e - 1) = 2 * w := by
      rw [hvw, zpow_sub_one₀ (by norm_num)]
      field_simp
    have hcast : (m : ℚ) = 2 ^ 52 := by exact_mod_cast heq
    have hclose : |2 * w - ((2 * m : ℤ) : ℚ)| < 1 / 2 := by
      push_cast
      rw [← mul_sub, abs_mul, abs_two, hcast]
      rw [hcast] at hnear
      norm_num at hnear ⊢
      linarith
    rw [hdouble, roundEven_near hclose, zpow_sub_one₀ (by norm_num)]
    push_cast
    ring

/-- A decimal near to a number is read as it. -/
theorem ofDecimal_near {x : Number} {m : Nat} {e : ℤ} {hm : 0 < m} (hx : x.toModel.unpack = .finite .positive m e hm)
    {s : Nat} {q : ℤ} (hs : 0 < s) (hq : -2048 ≤ q)
    (hnear : |decimalValue s q - m * 2 ^ e| < m * 2 ^ e / 2 ^ 54) :
    (ofDecimal s q).toModel.unpack = .finite .positive m e hm := by
  obtain ⟨hcanonical, he⟩ := canonical_unpack hx
  obtain ⟨u, hu, hmodel⟩ := ofDecimal_spec hs hq
  have heq := hu.unique (.finite hm hcanonical (roundToDouble_near hcanonical hm hnear).symm)
  rw [hmodel, heq, unpack_pack_canonical hcanonical he hm]

/-! ## The magnitude of a fraction -/

section Magnitude

variable {num den : Nat}

theorem leadingZeros_spec (fuel : Nat) (h : den ≤ num * 10 ^ fuel) :
    den ≤ num * 10 ^ leadingZeros fuel num den ∧ leadingZeros fuel num den ≤ fuel ∧
      (leadingZeros fuel num den = 0 ∨ num * 10 ^ leadingZeros fuel num den < den * 10) := by
  induction fuel generalizing num with
  | zero =>
    rw [leadingZeros]
    exact ⟨h, Nat.le_refl 0, .inl rfl⟩
  | succ fuel ih =>
    rw [leadingZeros]
    split
    · next hle =>
      rw [pow_zero, mul_one]
      exact ⟨hle, Nat.zero_le _, .inl rfl⟩
    · next hlt =>
      rw [pow_succ', ← mul_assoc] at h
      obtain ⟨hlow, hle, hhigh⟩ := ih h
      rw [pow_succ', ← mul_assoc]
      refine ⟨hlow, by omega, .inr ?_⟩
      rcases hhigh with hzero | hhigh
      · rw [hzero, pow_zero, mul_one]
        omega
      · exact hhigh

/-- The power of ten above the fraction. -/
theorem magnitude_spec (hden : 0 < den) (h : den ≤ num * 10 ^ 324) :
    (10 : ℚ) ^ (magnitude num den - 1) ≤ num / den ∧ (num : ℚ) / den < 10 ^ magnitude num den ∧
      -323 ≤ magnitude num den := by
  have hden' : (0 : ℚ) < den := by exact_mod_cast hden
  unfold magnitude
  split
  · next hle =>
    obtain ⟨n, hn⟩ : ∃ n, n = num / den := ⟨_, rfl⟩
    have hpos : 0 < n := by
      rw [hn]
      exact Nat.div_pos hle hden
    have hlength := Nat.length_toDigits_pos (b := 10) (n := n)
    rw [← hn]
    refine ⟨?_, ?_, by omega⟩
    · have hlow : 10 ^ ((Nat.toDigits 10 n).length - 1) ≤ n := by
        by_contra hlt
        rcases Nat.eq_zero_or_pos ((Nat.toDigits 10 n).length - 1) with hzero | hone
        · rw [hzero, pow_zero] at hlt
          omega
        · have hshort := (Nat.length_toDigits_le_iff (b := 10) (n := n) (by decide) hone).mpr (Nat.not_le.mp hlt)
          omega
      have hexponent : ((Nat.toDigits 10 n).length : ℤ) - 1 = ((Nat.toDigits 10 n).length - 1 : ℕ) := by omega
      rw [hexponent, zpow_natCast, le_div_iff₀ hden']
      have hmul : 10 ^ ((Nat.toDigits 10 n).length - 1) * den ≤ num :=
        (Nat.mul_le_mul_right _ hlow).trans (by rw [hn]; exact Nat.div_mul_le_self num den)
      exact_mod_cast hmul
    · rw [zpow_natCast, div_lt_iff₀ hden']
      have hlt : n < 10 ^ (Nat.toDigits 10 n).length :=
        (Nat.length_toDigits_le_iff (b := 10) (by decide) hlength).mp (Nat.le_refl _)
      have hmul : num < 10 ^ (Nat.toDigits 10 n).length * den := by
        rw [← Nat.div_lt_iff_lt_mul hden, ← hn]
        exact hlt
      exact_mod_cast hmul
  · next hlt =>
    obtain ⟨hlow, hfuel, hhigh⟩ := leadingZeros_spec 324 h
    obtain ⟨t, ht⟩ : ∃ t, t = leadingZeros 324 num den := ⟨_, rfl⟩
    rw [← ht] at hlow hfuel hhigh ⊢
    have hpos : t ≠ 0 := by
      intro hzero
      rw [hzero, pow_zero, mul_one] at hlow
      omega
    have hpow : (0 : ℚ) < 10 ^ t := by positivity
    refine ⟨?_, ?_, by omega⟩
    · have hexponent : (1 : ℤ) - t - 1 = -t := by omega
      rw [hexponent, zpow_neg, zpow_natCast, le_div_iff₀ hden', inv_mul_le_iff₀ hpow, mul_comm]
      exact_mod_cast hlow
    · rw [zpow_sub₀ (by norm_num), zpow_natCast, zpow_one, div_lt_div_iff₀ hden' hpow, mul_comm (10 : ℚ)]
      exact_mod_cast hhigh.resolve_left hpos

end Magnitude

/-! ## The search for the shortest digits -/

/-- The decimals next to a fraction, the closer one first. -/
theorem neighbours_spec {num den : Nat} (hden : 0 < den) (n : ℤ) (k : Nat) :
    (∀ c ∈ neighbours num den n k, (c : ℚ) ≤ num / den * 10 ^ ((k : ℤ) - n) + 1) ∧
      |((neighbours num den n k).headD 0 : ℚ) - num / den * 10 ^ ((k : ℤ) - n)| ≤ 1 / 2 := by
  obtain ⟨a, ha⟩ : ∃ a, a = if 0 ≤ (k : ℤ) - n then num * 10 ^ ((k : ℤ) - n).toNat else num := ⟨_, rfl⟩
  obtain ⟨b, hb⟩ : ∃ b, b = if 0 ≤ (k : ℤ) - n then den else den * 10 ^ (-((k : ℤ) - n)).toNat := ⟨_, rfl⟩
  have hbpos : 0 < b := by
    rw [hb]
    split
    · exact hden
    · exact Nat.mul_pos hden (Nat.pow_pos (by decide))
  have hden' : (0 : ℚ) < den := by exact_mod_cast hden
  have hbpos' : (0 : ℚ) < b := by exact_mod_cast hbpos
  have hvalue : (num : ℚ) / den * 10 ^ ((k : ℤ) - n) = a / b := by
    rw [ha, hb]
    split
    · next hq =>
      have hexponent : (k : ℤ) - n = (((k : ℤ) - n).toNat : ℤ) := by omega
      conv_lhs => rw [hexponent, zpow_natCast]
      push_cast
      ring
    · next hq =>
      have hexponent : (k : ℤ) - n = -((-((k : ℤ) - n)).toNat : ℤ) := by omega
      conv_lhs => rw [hexponent, zpow_neg, zpow_natCast]
      push_cast
      rw [← div_eq_mul_inv, div_div]
  have hlist : neighbours num den n k =
      if 2 * (a % b) < b ∨ 2 * (a % b) = b ∧ a / b % 2 = 0 then [a / b, a / b + 1] else [a / b + 1, a / b] := by
    rw [ha, hb]
    rfl
  have hrest : (a : ℚ) / b = (a / b : ℕ) + (a % b : ℕ) / b := by
    rw [div_eq_iff hbpos'.ne', add_mul, div_mul_cancel₀ _ hbpos'.ne']
    exact_mod_cast (Nat.div_add_mod' a b).symm
  have hpos : (0 : ℚ) ≤ (a % b : ℕ) / b := by positivity
  have hone : ((a % b : ℕ) : ℚ) / b < 1 := (div_lt_one hbpos').mpr (by exact_mod_cast Nat.mod_lt a hbpos)
  rw [hvalue, hlist, hrest]
  split
  · next hdown =>
    have hhalf : ((a % b : ℕ) : ℚ) / b ≤ 1 / 2 := by
      rw [div_le_iff₀ hbpos']
      have hle : 2 * (a % b) ≤ b := by omega
      have hle' : (2 : ℚ) * (a % b : ℕ) ≤ b := by exact_mod_cast hle
      linarith
    refine ⟨?_, ?_⟩
    · rw [forall_mem_cons, forall_mem_singleton]
      push_cast
      constructor <;> linarith
    · rw [headD_cons, abs_le]
      constructor <;> linarith
  · next hup =>
    have hhalf : 1 / 2 ≤ ((a % b : ℕ) : ℚ) / b := by
      rw [le_div_iff₀ hbpos']
      have hle : b ≤ 2 * (a % b) := by omega
      have hle' : (b : ℚ) ≤ 2 * (a % b : ℕ) := by exact_mod_cast hle
      linarith
    refine ⟨?_, ?_⟩
    · rw [forall_mem_cons, forall_mem_singleton]
      push_cast
      constructor <;> linarith
    · rw [headD_cons, abs_le]
      push_cast
      constructor <;> linarith

theorem beq_of_unpack {x : Number} (h : x.toModel.unpack = y.toModel.unpack) (hx : x.isNaN = false) :
    (x == y) = true := by
  have hy : y.isNaN = false := by
    change UnpackedFloat.isNaN y.toModel.unpack = false
    rw [← h]
    exact hx
  rw [beq_iff_rank hx hy, rank, rank, h]

section Shortest

variable {x : Number} {m : Nat} {e : ℤ} {hm : 0 < m}

theorem fraction_spec (hx : x.toModel.unpack = .finite .positive m e hm) :
    0 < x.fraction.2 ∧ (x.fraction.1 : ℚ) / x.fraction.2 = m * 2 ^ e ∧ x.fraction.2 ≤ x.fraction.1 * 10 ^ 324 := by
  obtain ⟨hcanonical, -⟩ := canonical_unpack hx
  have hle := hcanonical.le
  rw [fraction, hx]
  dsimp only
  split
  · next hpos =>
    have hexponent : e = (e.toNat : ℤ) := by omega
    refine ⟨Nat.one_pos, ?_, ?_⟩
    · conv_rhs => rw [hexponent, zpow_natCast]
      push_cast
      ring
    · have hten : 0 < 10 ^ 324 := by decide +kernel
      exact Nat.succ_le_of_lt (Nat.mul_pos (Nat.mul_pos hm (Nat.two_pow_pos _)) hten)
  · next hneg =>
    have hexponent : e = -((-e).toNat : ℤ) := by omega
    refine ⟨Nat.two_pow_pos _, ?_, ?_⟩
    · conv_rhs => rw [hexponent, zpow_neg, zpow_natCast]
      push_cast
      rw [div_eq_mul_inv]
    · calc 2 ^ (-e).toNat ≤ 2 ^ 1074 := Nat.pow_le_pow_right (by decide) (by omega)
        _ ≤ 1 * 10 ^ 324 := by decide +kernel
        _ ≤ m * 10 ^ 324 := Nat.mul_le_mul_right _ hm

/-- The search ends with digits that read back as the number. -/
theorem exists_shortest (hx : x.toModel.unpack = .finite .positive m e hm) {fuel k : Nat} (hk : 1 ≤ k)
    (hfuel : fuel + k = 17) :
    ∃ s q, shortest x x.fraction.1 x.fraction.2 (magnitude x.fraction.1 x.fraction.2) fuel k = (s, q) ∧
      0 < s ∧ s ≤ 10 ^ 17 ∧ -340 ≤ q ∧ (ofDecimal s q == x) = true := by
  obtain ⟨hden, hvalue, hbound⟩ := fraction_spec hx
  obtain ⟨hlow, hhigh, hmagnitude⟩ := magnitude_spec hden hbound
  have hnan : x.isNaN = false := by
    change UnpackedFloat.isNaN x.toModel.unpack = false
    rw [hx]
    rfl
  generalize magnitude x.fraction.1 x.fraction.2 = n at hlow hhigh hmagnitude ⊢
  generalize x.fraction.2 = den at hden hvalue hlow hhigh ⊢
  generalize x.fraction.1 = num at hvalue hlow hhigh ⊢
  have hscaled : ∀ k : ℕ, (num : ℚ) / den * 10 ^ ((k : ℤ) - n) < 10 ^ k := by
    intro k
    calc (num : ℚ) / den * 10 ^ ((k : ℤ) - n) < 10 ^ n * 10 ^ ((k : ℤ) - n) :=
          mul_lt_mul_of_pos_right hhigh (zpow_pos (by norm_num) _)
      _ = 10 ^ k := by
        rw [← zpow_add₀ (by norm_num), ← zpow_natCast]
        congr 1
        omega
  have hbelow : ∀ {k c : ℕ}, k ≤ 17 → (c : ℚ) ≤ num / den * 10 ^ ((k : ℤ) - n) + 1 → c ≤ 10 ^ 17 := by
    intro k c hk hle
    have hlt : (c : ℚ) < (10 ^ k + 1 : ℕ) := by
      have := hscaled k
      push_cast
      linarith
    have hc : c ≤ 10 ^ k := Nat.lt_succ_iff.mp (by exact_mod_cast hlt)
    exact hc.trans (Nat.pow_le_pow_right (by decide) hk)
  induction fuel generalizing k with
  | zero =>
    obtain rfl : k = 17 := by omega
    obtain ⟨-, hnear⟩ := @neighbours_spec num den hden n 17
    obtain ⟨s, hs⟩ : ∃ s, s = (neighbours num den n 17).headD 0 := ⟨_, rfl⟩
    obtain ⟨w, hw⟩ : ∃ w : ℚ, w = num / den * 10 ^ ((17 : ℤ) - n) := ⟨_, rfl⟩
    have hw' : (num : ℚ) / den = w * 10 ^ (n - 17) := by
      rw [hw, mul_assoc, ← zpow_add₀ (by norm_num)]
      simp
    have hten : (0 : ℚ) < 10 ^ (n - 17) := zpow_pos (by norm_num) _
    have hwlow : (10 : ℚ) ^ 16 ≤ w := by
      rw [hw]
      calc (10 : ℚ) ^ 16 = 10 ^ (n - 1) * 10 ^ ((17 : ℤ) - n) := by
            rw [← zpow_add₀ (by norm_num), ← zpow_natCast]
            congr 1
            push_cast
            ring
        _ ≤ _ := mul_le_mul_of_nonneg_right hlow (zpow_pos (by norm_num) _).le
    rw [← hs] at hnear
    push_cast at hnear
    rw [← hw] at hnear
    have hspos : 0 < s := by
      have hpos : (0 : ℚ) < s := by
        rw [abs_le] at hnear
        norm_num at hwlow
        linarith
      exact_mod_cast hpos
    refine ⟨s, n - 17, by rw [shortest, hs]; rfl, hspos, ?_, by omega, ?_⟩
    · refine hbelow (k := 17) (Nat.le_refl _) ?_
      rw [abs_le] at hnear
      push_cast
      rw [← hw]
      linarith
    · have hclose : |decimalValue s (n - 17) - m * 2 ^ e| < m * 2 ^ e / 2 ^ 54 := by
        rw [← hvalue, hw', decimalValue, ← sub_mul, abs_mul, abs_of_pos hten, mul_div_right_comm]
        refine mul_lt_mul_of_pos_right ?_ hten
        norm_num at hwlow hnear ⊢
        linarith
      have hread := ofDecimal_near hx hspos (by omega) hclose
      have hnan' : (ofDecimal s (n - 17)).isNaN = false := by
        change UnpackedFloat.isNaN (ofDecimal s (n - 17)).toModel.unpack = false
        rw [hread]
        rfl
      exact beq_of_unpack (hread.trans hx.symm) hnan'
  | succ fuel ih =>
    rw [shortest]
    split
    · next s hfind =>
      have hs := List.find?_some hfind
      rw [Bool.and_eq_true, bne_iff_ne] at hs
      exact ⟨s, n - k, rfl, Nat.pos_of_ne_zero hs.1, hbelow (by omega) ((neighbours_spec hden n k).1 s
        (List.mem_of_find?_eq_some hfind)), by omega, hs.2⟩
    · exact ih (by omega) (by omega)

end Shortest

end Number

end Js
