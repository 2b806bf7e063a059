import Mathlib

/-!
# JavaScript numbers

A JavaScript number is an IEEE binary64 value: Lean's `Float`, whose operations have a logical model
(`Float.Model`) that evaluates in the kernel. `Math.min` and `Math.max` differ from Lean's `min` and
`max` on NaN and are defined here, as are the predicates of `Number`.

- **Sign** (`zero_le_add`, `zero_le_mul`, `zero_le_mathMin`): sums and products of non-negative
  numbers are non-negative or, for a product, NaN. Nothing is said about rounding: an overflow gives
  `Infinity`, which is non-negative.
-/

open Float.Model Float.Model.UnpackedFloat

namespace Js

/-- A JavaScript number. -/
abbrev Number := Float

namespace Number

def nan : Number := 0 / 0

def infinity : Number := 1 / 0

/-- `Number.isInteger`. -/
def isInteger (x : Number) : Bool :=
  match x.toModel.unpack with
  | .zero _ => true
  | .finite _ m e _ => decide (0 ≤ e) || m % 2 ^ (-e).toNat == 0
  | .infinity _ | .notANumber => false

/-- `Number.MAX_SAFE_INTEGER`, which is `2 ^ 53 - 1`. -/
def maxSafeInteger : Number := 9007199254740991

/-- `Number.isSafeInteger`. -/
def isSafeInteger (x : Number) : Bool :=
  isInteger x && decide (-maxSafeInteger ≤ x) && decide (x ≤ maxSafeInteger)

/-- `Math.min` of two numbers: NaN when one of them is. -/
def mathMin (x y : Number) : Number :=
  if x.isNaN || y.isNaN then nan else if x ≤ y then x else y

/-- `Math.max` of two numbers: NaN when one of them is. -/
def mathMax (x y : Number) : Number :=
  if x.isNaN || y.isNaN then nan else if y ≤ x then x else y

/-- `2 ** n`, which is exact, and `Infinity` from `n = 1024` on (the mantissa of a normal number has
53 bits, so `2 ^ 52` with exponent `n - 52`). -/
def twoPow (n : Nat) : Number :=
  .ofModel (Float.Model.pack (.finite .positive (2 ^ 52) (n - 52) (by decide)))

/-- The natural number an integral number stands for (0 for a negative or fractional one). -/
def toNat (x : Number) : Nat :=
  match x.toModel.unpack with
  | .finite .positive m e _ => if 0 ≤ e then m * 2 ^ e.toNat else m / 2 ^ (-e).toNat
  | _ => 0

/-- The number nearest to a natural number. -/
def ofNat (n : Nat) : Number := .ofModel (Float.Model.ofNat n)

/-! ## Sign -/

/-- An unpacked number that is neither NaN nor below zero. -/
def NonNeg : UnpackedFloat → Prop
  | .notANumber => False
  | .infinity s => s = .positive
  | .zero _ => True
  | .finite s _ _ _ => s = .positive

theorem unpack_zero : (0 : Number).toModel.unpack = .zero .positive := by
  with_unfolding_all rfl

variable {x y : Number} {u v : UnpackedFloat} {s : Sign} {e : Int} {m : BitVec 52}

theorem zero_le_iff : 0 ≤ x ↔ NonNeg x.toModel.unpack := by
  have h : (0 ≤ x) ↔ UnpackedFloat.le (0 : Number).toModel.unpack x.toModel.unpack = true := by
    simp only [LE.le, Float.le, Float.Model.le]
    exact decide_eq_true_iff
  rw [h, unpack_zero]
  cases x.toModel.unpack with
  | notANumber => simp [UnpackedFloat.le, UnpackedFloat.compare, NonNeg]
  | infinity s => cases s <;> simp [UnpackedFloat.le, UnpackedFloat.compare, NonNeg]
  | zero s => simp [UnpackedFloat.le, UnpackedFloat.compare, NonNeg]
  | finite s m e h =>
    cases s with
    | positive => exact iff_of_true rfl rfl
    | negative => exact iff_of_false Bool.false_ne_true fun h => by cases h

theorem isNaN_iff : x.isNaN = true ↔ x.toModel.unpack = .notANumber :=
  UnpackedFloat.isNaN_iff

theorem not_isNaN_of_zero_le (h : 0 ≤ x) : x.isNaN = false := by
  rw [zero_le_iff] at h
  rw [Bool.eq_false_iff, ne_eq, isNaN_iff]
  intro hn
  rw [hn] at h
  exact h

theorem le_iff_compare :
    x ≤ y ↔ (UnpackedFloat.compare x.toModel.unpack y.toModel.unpack).any (·.isLE) = true := by
  simp only [LE.le, Float.le, Float.Model.le]
  exact decide_eq_true_iff

theorem lt_iff_compare :
    x < y ↔ (UnpackedFloat.compare x.toModel.unpack y.toModel.unpack == some .lt) = true := by
  simp only [LT.lt, Float.lt, Float.Model.lt]
  exact decide_eq_true_iff

theorem le_of_lt (h : x < y) : x ≤ y := by
  rw [lt_iff_compare] at h
  rw [le_iff_compare, eq_of_beq h]
  rfl

theorem nonNeg_of_le (hu : NonNeg u)
    (h : (UnpackedFloat.compare u v).any (·.isLE) = true) : NonNeg v := by
  cases v with
  | notANumber => cases u <;> simp [UnpackedFloat.compare] at h
  | zero s => trivial
  | infinity s =>
    cases s with
    | positive => rfl
    | negative =>
      cases u <;> simp only [NonNeg] at hu <;> (try subst hu) <;> simp [UnpackedFloat.compare] at h
      cases h
  | finite s m e hm =>
    cases s with
    | positive => rfl
    | negative =>
      cases u <;> simp only [NonNeg] at hu <;> (try subst hu) <;> simp [UnpackedFloat.compare] at h

theorem zero_le_of_le (hx : 0 ≤ x) (h : x ≤ y) : 0 ≤ y := by
  rw [zero_le_iff] at hx ⊢
  rw [le_iff_compare] at h
  exact nonNeg_of_le hx h

/-- Packed components with a positive sign unpack to a non-negative number, unless the exponent is
the one of NaN and infinity and the mantissa is not 0. -/
theorem nonNeg_unpack_packComponents {e : BitVec 11} (h : e ≠ -1#11 ∨ m = 0#52) :
    NonNeg (UnpackedFloat.unpack Format.binary64
      (packComponents Format.binary64 .positive e m)) := by
  have hs : Sign.ofBitVec (unpackSign (packComponents Format.binary64 .positive e m)) =
      .positive := by
    rw [unpackSign_packComponents, Sign.ofBitVec_toBitVec]
  unfold UnpackedFloat.unpack
  simp only [unpackMantissa_packComponents, unpackExponent_packComponents, hs]
  split
  · next he =>
    rw [if_pos (h.resolve_left (fun hn => hn he))]
    rfl
  · split
    · split <;> simp [NonNeg]
    · rfl

theorem unpack_pack_finite {P : UnpackedFloat → Prop} {m : Nat} {hm : 0 < m}
    (h : ∀ {e : BitVec 11} {m : BitVec 52}, e ≠ -1#11 ∨ m = 0#52 →
      P (UnpackedFloat.unpack Format.binary64 (packComponents Format.binary64 s e m))) :
    P (UnpackedFloat.unpack Format.binary64 (UnpackedFloat.pack Format.binary64 (.finite s m e hm))) := by
  delta UnpackedFloat.pack
  dsimp only
  split
  · exact h (.inr rfl)
  · next hb =>
    split
    · refine h (.inl fun he => ?_)
      have := congrArg BitVec.toNat he
      simp only [BitVec.toNat_ofNat] at this
      rw [Nat.mod_eq_of_lt (by omega)] at this
      simp at this
      omega
    · exact h (.inl (by decide))

/-- Rounding to the packed form keeps the sign. -/
theorem nonNeg_pack (h : NonNeg u) : NonNeg (Float.Model.pack u).unpack := by
  change NonNeg (UnpackedFloat.unpack Format.binary64
    (UInt64.ofBitVec (UnpackedFloat.pack Format.binary64 u)).toBitVec)
  rw [UInt64.toBitVec_ofBitVec]
  cases u with
  | notANumber => exact h.elim
  | infinity s =>
    obtain rfl : s = .positive := h
    exact nonNeg_unpack_packComponents (.inr rfl)
  | zero s =>
    cases s
    · with_unfolding_all exact trivial
    · exact nonNeg_unpack_packComponents (.inr rfl)
  | finite s m e hm =>
    obtain rfl : s = .positive := h
    exact unpack_pack_finite nonNeg_unpack_packComponents

theorem nonNeg_roundWithAccuracy {m : Nat} {a : Accuracy} :
    NonNeg (roundWithAccuracy Format.binary64 .positive m e a) := by
  unfold roundWithAccuracy
  dsimp only
  split <;> simp [NonNeg]

theorem nonNeg_normalize {m : Int} (h : 0 ≤ m) :
    NonNeg (UnpackedFloat.normalize Format.binary64 m e .positive) := by
  unfold UnpackedFloat.normalize
  split
  · next hc => rw [Int.compare_eq_lt] at hc; omega
  · trivial
  · exact nonNeg_roundWithAccuracy

theorem nonNeg_add (hu : NonNeg u) (hv : NonNeg v) :
    NonNeg (UnpackedFloat.add Format.binary64 u v) := by
  cases u <;> cases v <;> simp only [NonNeg] at hu hv <;> (try subst hu) <;> (try subst hv) <;>
    simp only [UnpackedFloat.add]
  case finite.finite => exact nonNeg_normalize (by simp only [Sign.apply]; omega)
  all_goals first | rfl | (split <;> trivial)

theorem nonNeg_mul (hu : NonNeg u) (hv : NonNeg v) :
    UnpackedFloat.mul Format.binary64 u v = .notANumber ∨
      NonNeg (UnpackedFloat.mul Format.binary64 u v) := by
  cases u <;> cases v <;> simp only [NonNeg] at hu hv <;> (try subst hu) <;> (try subst hv) <;>
    simp only [UnpackedFloat.mul]
  case finite.finite => exact .inr nonNeg_roundWithAccuracy
  case infinity.zero | zero.infinity => exact .inl trivial
  all_goals first | exact .inr trivial | exact .inr rfl

theorem zero_le_add (hx : 0 ≤ x) (hy : 0 ≤ y) : 0 ≤ x + y := by
  rw [zero_le_iff] at *
  exact nonNeg_pack (nonNeg_add hx hy)

theorem zero_le_mul (hx : 0 ≤ x) (hy : 0 ≤ y) :
    (x * y).isNaN = true ∨ 0 ≤ x * y := by
  rw [zero_le_iff] at *
  rcases nonNeg_mul hx hy with h | h
  · refine .inl ?_
    have : (x * y) = Float.ofModel (Float.Model.pack .notANumber) :=
      congrArg (fun u => Float.ofModel (Float.Model.pack u)) h
    rw [this]
    decide +kernel
  · exact .inr (nonNeg_pack h)

theorem zero_le_twoPow (n : Nat) : 0 ≤ twoPow n :=
  zero_le_iff.mpr (nonNeg_pack rfl)

theorem zero_le_ofNat (n : Nat) : 0 ≤ ofNat n :=
  zero_le_iff.mpr (nonNeg_pack (nonNeg_normalize (Int.natCast_nonneg n)))

theorem zero_le_mathMin (hx : 0 ≤ x) (hy : 0 ≤ y) : 0 ≤ mathMin x y := by
  unfold mathMin
  simp only [not_isNaN_of_zero_le hx, not_isNaN_of_zero_le hy]
  split
  · next h => simp at h
  · split <;> assumption

theorem isNaN_nan : nan.isNaN = true := by decide

/-- `Math.min` of a number that is NaN or not below zero and of one that is not below zero. -/
theorem isNaN_or_zero_le_mathMin (hx : x.isNaN = true ∨ 0 ≤ x) (hy : 0 ≤ y) :
    (mathMin x y).isNaN = true ∨ 0 ≤ mathMin x y := by
  rcases hx with hx | hx
  · refine .inl ?_
    rw [mathMin, hx, Bool.true_or, if_pos rfl]
    exact isNaN_nan
  · exact .inr (zero_le_mathMin hx hy)

theorem mathMax_zero (hx : 0 ≤ x) : mathMax x 0 = x := by
  have h0 : (0 : Number).isNaN = false := by decide
  rw [mathMax, not_isNaN_of_zero_le hx, h0, Bool.or_false, if_neg Bool.false_ne_true, if_pos hx]

/-! ## Order -/

theorem compare_swap (u v : UnpackedFloat) :
    UnpackedFloat.compare v u = (UnpackedFloat.compare u v).map Ordering.swap := by
  cases u with
  | notANumber => cases v <;> rfl
  | zero s =>
    cases v with
    | finite s' => cases s' <;> rfl
    | infinity s' => cases s' <;> rfl
    | zero | notANumber => rfl
  | infinity s =>
    cases v with
    | infinity s' => cases s <;> cases s' <;> rfl
    | _ => cases s <;> rfl
  | finite s m e h =>
    cases v with
    | notANumber => rfl
    | zero s' => cases s <;> rfl
    | infinity s' => cases s' <;> rfl
    | finite s' m' e' h' =>
      have hswap : ((compare e e').then (compare m m')).swap =
          (compare e' e).then (compare m' m) := by
        rw [Ordering.swap_then, Int.compare_swap, Nat.compare_swap]
      cases s <;> cases s' <;> first
        | rfl
        | simp only [UnpackedFloat.compare, Option.map_some, ← hswap, Ordering.swap_swap]

theorem not_lt_of_le (h : x ≤ y) : ¬y < x := by
  rw [le_iff_compare] at h
  rw [lt_iff_compare, compare_swap]
  revert h
  cases UnpackedFloat.compare x.toModel.unpack y.toModel.unpack with
  | none => simp
  | some o => cases o <;> simp [Ordering.isLE]

theorem not_le_of_lt (h : x < y) : ¬y ≤ x := fun hle => not_lt_of_le hle h

theorem lt_of_le_of_not_beq (h : x ≤ y) (hne : (y == x) = false) : x < y := by
  have hb : (y == x) = (UnpackedFloat.compare y.toModel.unpack x.toModel.unpack == some .eq) := rfl
  rw [hb, compare_swap] at hne
  rw [le_iff_compare] at h
  rw [lt_iff_compare]
  revert h hne
  cases UnpackedFloat.compare x.toModel.unpack y.toModel.unpack with
  | none => simp
  | some o => cases o <;> simp [Ordering.isLE]

/-- The place of an unpacked number in the order of the numbers; NaN has none. -/
def rankOf : UnpackedFloat → ℤ ×ₗ ℤ ×ₗ ℤ
  | .notANumber | .zero _ => toLex (0, toLex (0, 0))
  | .infinity .positive => toLex (2, toLex (0, 0))
  | .infinity .negative => toLex (-2, toLex (0, 0))
  | .finite .positive m e _ => toLex (1, toLex (e, (m : ℤ)))
  | .finite .negative m e _ => toLex (-1, toLex (-e, -(m : ℤ)))

def rank (x : Number) : ℤ ×ₗ ℤ ×ₗ ℤ := rankOf x.toModel.unpack

theorem compare_eq_lt (hu : u ≠ .notANumber) (hv : v ≠ .notANumber) :
    UnpackedFloat.compare u v = some .lt ↔ rankOf u < rankOf v := by
  cases u with
  | notANumber => exact absurd rfl hu
  | zero s =>
    cases v with
    | notANumber => exact absurd rfl hv
    | zero s' => simp [UnpackedFloat.compare, rankOf]
    | infinity s' => cases s' <;> simp [UnpackedFloat.compare, rankOf, Prod.Lex.toLex_lt_toLex]
    | finite s' => cases s' <;> simp [UnpackedFloat.compare, rankOf, Prod.Lex.toLex_lt_toLex]
  | infinity s =>
    cases v with
    | notANumber => exact absurd rfl hv
    | zero s' => cases s <;> simp [UnpackedFloat.compare, rankOf, Prod.Lex.toLex_lt_toLex]
    | infinity s' =>
      cases s <;> cases s' <;> simp [UnpackedFloat.compare, rankOf, Prod.Lex.toLex_lt_toLex]
      all_goals decide
    | finite s' =>
      cases s <;> cases s' <;> simp [UnpackedFloat.compare, rankOf, Prod.Lex.toLex_lt_toLex]
  | finite s m e h =>
    cases v with
    | notANumber => exact absurd rfl hv
    | zero s' => cases s <;> simp [UnpackedFloat.compare, rankOf, Prod.Lex.toLex_lt_toLex]
    | infinity s' =>
      cases s <;> cases s' <;> simp [UnpackedFloat.compare, rankOf, Prod.Lex.toLex_lt_toLex]
    | finite s' m' e' h' =>
      cases s <;> cases s' <;>
        simp [UnpackedFloat.compare, rankOf, Prod.Lex.toLex_lt_toLex, Ordering.then_eq_lt,
          Ordering.swap_then, compare_lt_iff_lt, compare_gt_iff_gt]

theorem compare_ne_none (hu : u ≠ .notANumber) (hv : v ≠ .notANumber) :
    UnpackedFloat.compare u v ≠ none := by
  unfold UnpackedFloat.compare
  split <;> simp_all

theorem unpack_ne (hx : x.isNaN = false) : x.toModel.unpack ≠ .notANumber :=
  mt isNaN_iff.mpr (Bool.eq_false_iff.mp hx)

theorem lt_iff_rank (hx : x.isNaN = false) (hy : y.isNaN = false) :
    x < y ↔ rank x < rank y := by
  rw [lt_iff_compare, beq_iff_eq, compare_eq_lt (unpack_ne hx) (unpack_ne hy)]
  rfl

theorem le_iff_not_lt (hx : x.isNaN = false) (hy : y.isNaN = false) :
    x ≤ y ↔ ¬y < x := by
  refine ⟨not_lt_of_le, fun h => ?_⟩
  rw [lt_iff_compare, compare_swap] at h
  rw [le_iff_compare]
  have hsome := compare_ne_none (unpack_ne hx) (unpack_ne hy)
  revert h hsome
  cases UnpackedFloat.compare x.toModel.unpack y.toModel.unpack with
  | none => simp
  | some o => cases o <;> simp [Ordering.isLE]

theorem le_iff_rank (hx : x.isNaN = false) (hy : y.isNaN = false) :
    x ≤ y ↔ rank x ≤ rank y := by
  rw [le_iff_not_lt hx hy, lt_iff_rank hy hx, not_lt]

/-! ## NaN -/

/-- Packed components unpack to a number, unless the exponent is the one of NaN and infinity and the mantissa
is not 0. -/
theorem unpack_packComponents_ne {e : BitVec 11} (h : e ≠ -1#11 ∨ m = 0#52) :
    UnpackedFloat.unpack Format.binary64 (packComponents Format.binary64 s e m) ≠ .notANumber := by
  unfold UnpackedFloat.unpack
  simp only [unpackMantissa_packComponents, unpackExponent_packComponents]
  split
  · next he =>
    rw [if_pos (h.resolve_left (fun hn => hn he))]
    simp
  · split
    · split <;> simp
    · simp

/-- Rounding to the packed form does not make NaN of a number. -/
theorem unpack_pack_ne (h : u ≠ .notANumber) :
    (Float.Model.pack u).unpack ≠ .notANumber := by
  change UnpackedFloat.unpack Format.binary64
    (UInt64.ofBitVec (UnpackedFloat.pack Format.binary64 u)).toBitVec ≠ _
  rw [UInt64.toBitVec_ofBitVec]
  cases u with
  | notANumber => exact absurd rfl h
  | infinity s => exact unpack_packComponents_ne (.inr rfl)
  | zero s => exact unpack_packComponents_ne (.inr rfl)
  | finite s m e hm =>
    exact unpack_pack_finite (P := (· ≠ .notANumber)) unpack_packComponents_ne

theorem normalize_ne {m : Int} :
    UnpackedFloat.normalize Format.binary64 m e s ≠ .notANumber := by
  have hround : ∀ s m e, roundWithAccuracy Format.binary64 s m e .exact ≠ .notANumber := by
    intro s m e
    unfold roundWithAccuracy
    dsimp only
    split <;> simp
  unfold UnpackedFloat.normalize
  split
  · exact hround _ _ _
  · simp
  · exact hround _ _ _

theorem not_isNaN_of_isFinite (h : x.isFinite = true) : x.isNaN = false := by
  have h : UnpackedFloat.isFinite x.toModel.unpack = true := h
  rw [Bool.eq_false_iff, ne_eq, isNaN_iff]
  intro hn
  rw [hn] at h
  cases h

theorem isFinite_mathMax (hx : x.isFinite = true) (hy : y.isFinite = true) :
    (mathMax x y).isFinite = true := by
  rw [mathMax, not_isNaN_of_isFinite hx, not_isNaN_of_isFinite hy, Bool.or_false,
    if_neg Bool.false_ne_true]
  split <;> assumption

/-- A sum of a number and a finite number is not NaN. -/
theorem not_isNaN_add (hx : x.isNaN = false) (hy : y.isFinite = true) :
    (x + y).isNaN = false := by
  have hx := unpack_ne hx
  have hy : UnpackedFloat.isFinite y.toModel.unpack = true := hy
  rw [Bool.eq_false_iff, ne_eq, isNaN_iff]
  refine unpack_pack_ne (u := UnpackedFloat.add Format.binary64 x.toModel.unpack y.toModel.unpack) ?_
  revert hx hy
  cases x.toModel.unpack with
  | notANumber => simp
  | infinity s => cases y.toModel.unpack <;> simp [UnpackedFloat.isFinite, UnpackedFloat.add]
  | zero s =>
    cases y.toModel.unpack <;> simp [UnpackedFloat.isFinite, UnpackedFloat.add]
    split <;> simp
  | finite s m e h =>
    cases y.toModel.unpack <;> simp [UnpackedFloat.isFinite, UnpackedFloat.add, normalize_ne]

/-! ## Times -/

/-- A finite number that is not negative: what a persisted record may hold as a time. -/
def IsTime (x : Number) : Prop := x.isFinite = true ∧ 0 ≤ x

instance (x : Number) : Decidable (IsTime x) := inferInstanceAs (Decidable (_ ∧ _))

theorem IsTime.not_isNaN (h : IsTime x) : x.isNaN = false := not_isNaN_of_zero_le h.2

theorem IsTime.add (hx : IsTime x) (hy : IsTime y)
    (h : (x + y).isFinite = true) : IsTime (x + y) :=
  ⟨h, zero_le_add hx.2 hy.2⟩

theorem isTime_zero : IsTime 0 := by decide

/-- A sum with NaN is not finite. -/
theorem not_isNaN_of_isFinite_add (h : (x + y).isFinite = true) :
    y.isNaN = false := by
  rw [Bool.eq_false_iff, ne_eq, isNaN_iff]
  intro hy
  have hadd : UnpackedFloat.add Format.binary64 x.toModel.unpack y.toModel.unpack =
      .notANumber := by
    rw [hy]
    cases x.toModel.unpack <;> rfl
  have hsum : x + y = Float.ofModel (Float.Model.pack .notANumber) :=
    congrArg (fun u => Float.ofModel (Float.Model.pack u)) hadd
  rw [hsum] at h
  revert h
  decide +kernel

/-- A finite sum of a time and a number that is NaN or not below zero is a time. -/
theorem IsTime.add_of (hx : IsTime x) (hy : y.isNaN = true ∨ 0 ≤ y)
    (h : (x + y).isFinite = true) : IsTime (x + y) := by
  refine ⟨h, zero_le_add hx.2 (hy.resolve_left ?_)⟩
  rw [not_isNaN_of_isFinite_add h]
  exact Bool.false_ne_true

/-! ## The sign of zero -/

/-- The number with `-0` replaced by `0`, which is `===` to it. -/
def plusZero (x : Number) : Number := if x == 0 then 0 else x

theorem compare_zero_left (s t : Sign) (u : UnpackedFloat) :
    UnpackedFloat.compare (.zero s) u = UnpackedFloat.compare (.zero t) u := by
  cases u with
  | infinity s' => cases s' <;> rfl
  | notANumber => rfl
  | zero s' => rfl
  | finite s' m e h => cases s' <;> rfl

theorem compare_zero_right (s t : Sign) (u : UnpackedFloat) :
    UnpackedFloat.compare u (.zero s) = UnpackedFloat.compare u (.zero t) := by
  cases u with
  | infinity s' => cases s' <;> rfl
  | notANumber => rfl
  | zero s' => rfl
  | finite s' m e h => cases s' <;> rfl

/-- Only the two zeros are `===` to 0. -/
theorem unpack_of_beq_zero (h : (x == 0) = true) :
    ∃ s, x.toModel.unpack = .zero s := by
  have hb : UnpackedFloat.beq x.toModel.unpack (0 : Number).toModel.unpack = true := h
  rw [unpack_zero] at hb
  cases hu : x.toModel.unpack with
  | zero s => exact ⟨s, rfl⟩
  | notANumber => rw [hu] at hb; cases hb
  | infinity s => rw [hu] at hb; cases s <;> cases hb
  | finite s m e hm => rw [hu] at hb; cases s <;> cases hb

theorem le_plusZero : y ≤ plusZero x ↔ y ≤ x := by
  unfold plusZero
  split
  · next h =>
    obtain ⟨s, hs⟩ := unpack_of_beq_zero h
    rw [le_iff_compare, le_iff_compare, hs, unpack_zero, compare_zero_right s .positive]
  · rfl

theorem plusZero_le : plusZero x ≤ y ↔ x ≤ y := by
  unfold plusZero
  split
  · next h =>
    obtain ⟨s, hs⟩ := unpack_of_beq_zero h
    rw [le_iff_compare, le_iff_compare, hs, unpack_zero, compare_zero_left s .positive]
  · rfl

theorem lt_plusZero : y < plusZero x ↔ y < x := by
  unfold plusZero
  split
  · next h =>
    obtain ⟨s, hs⟩ := unpack_of_beq_zero h
    rw [lt_iff_compare, lt_iff_compare, hs, unpack_zero, compare_zero_right s .positive]
  · rfl

theorem isFinite_plusZero (x : Number) : (plusZero x).isFinite = x.isFinite := by
  unfold plusZero
  split
  · next h =>
    obtain ⟨s, hs⟩ := unpack_of_beq_zero h
    change UnpackedFloat.isFinite (0 : Number).toModel.unpack =
      UnpackedFloat.isFinite x.toModel.unpack
    rw [hs, unpack_zero]
    rfl
  · rfl

theorem toNat_plusZero (x : Number) : toNat (plusZero x) = toNat x := by
  unfold plusZero
  split
  · next h =>
    obtain ⟨s, hs⟩ := unpack_of_beq_zero h
    rw [toNat, toNat, hs, unpack_zero]
  · rfl

theorem isSafeInteger_plusZero (x : Number) : isSafeInteger (plusZero x) = isSafeInteger x := by
  have hi : isInteger (plusZero x) = isInteger x := by
    unfold plusZero
    split
    · next h =>
      obtain ⟨s, hs⟩ := unpack_of_beq_zero h
      rw [isInteger, isInteger, hs, unpack_zero]
    · rfl
  simp only [isSafeInteger, hi, le_plusZero, plusZero_le]

theorem isFinite_of_isSafeInteger (h : isSafeInteger x = true) :
    x.isFinite = true := by
  simp only [isSafeInteger, Bool.and_eq_true] at h
  have hi := h.1.1
  change UnpackedFloat.isFinite x.toModel.unpack = true
  rw [isInteger] at hi
  cases hu : x.toModel.unpack with
  | notANumber | infinity => rw [hu] at hi; cases hi
  | zero | finite => rfl

end Number

end Js
