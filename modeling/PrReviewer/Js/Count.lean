import PrReviewer.Js.Order
import PrReviewer.Js.SafeInteger

/-!
# Counts against a limit

A count below `2 ^ 53` is exact as a number, and such counts compare as natural numbers (`ofNat_le_ofNat`). A limit
that is a whole number, or beyond all of them, is not passed by counting up to it (`ofNat_succ_le`).
-/

open Float.Model

namespace Js.Number

variable {m n : Nat}

/-- A whole number, or one above all safe ones. -/
def IsWhole (x : Number) : Prop := isSafeInteger x = true ∨ maxSafeInteger < x

theorem unpack_ofNat (hn : 0 < n) (hn' : n < 2 ^ 53) : (ofNat n).toModel.unpack = formOf hn hn' := by
  change (Float.Model.pack (UnpackedFloat.ofNat Format.binary64 n)).unpack = formOf hn hn'
  rw [unpackedOfNat_eq hn hn', unpack_pack_formOf]

theorem rankOf_formOf_le (hm : 0 < m) (hn : 0 < n) (hm' : m < 2 ^ 53) (hn' : n < 2 ^ 53) (h : m ≤ n) :
    rankOf (formOf hm hm') ≤ rankOf (formOf hn hn') := by
  have hlog : m.log2 ≤ n.log2 := by
    rw [Nat.log2_eq_log_two, Nat.log2_eq_log_two]
    exact Nat.log_mono_right h
  simp only [formOf, rankOf, Prod.Lex.toLex_le_toLex, lt_irrefl, true_and, false_or]
  rcases hlog.lt_or_eq with hlt | heq
  · left
    rw [exponentOf, exponentOf]
    omega
  · right
    rw [exponentOf, exponentOf, mantissaOf, mantissaOf, heq]
    exact ⟨rfl, by exact_mod_cast Nat.mul_le_mul_right _ h⟩

theorem not_isNaN_ofNat (n : Nat) : (ofNat n).isNaN = false := not_isNaN_of_zero_le (zero_le_ofNat n)

/-- Counts compare as natural numbers. -/
theorem ofNat_le_ofNat (h : m ≤ n) (hn : n < 2 ^ 53) : ofNat m ≤ ofNat n := by
  rcases Nat.eq_zero_or_pos m with rfl | hm
  · have hzero : ofNat 0 = 0 := by decide +kernel
    rw [hzero]
    exact zero_le_ofNat n
  · have hm' : m < 2 ^ 53 := by omega
    have hpos : 0 < n := by omega
    rw [le_iff_rank (not_isNaN_ofNat m) (not_isNaN_ofNat n), rank, rank, unpack_ofNat hm hm', unpack_ofNat hpos hn]
    exact rankOf_formOf_le hm hpos hm' hn h

/-- A count below a whole limit is at least one below it. -/
theorem ofNat_succ_le {x : Number} (hx : 1 ≤ x) (hwhole : IsWhole x) (hn : n + 1 < 2 ^ 53) (h : ¬x ≤ ofNat n) :
    ofNat (n + 1) ≤ x := by
  rcases hwhole with hsafe | hlarge
  · have hpos : 0 < x := lt_of_lt_of_le (by decide) hx
    obtain ⟨k, hk, hk', hunpack⟩ := unpack_of_isSafeInteger hsafe hpos
    have hsame : x.toModel.unpack = (ofNat k).toModel.unpack := by rw [hunpack, unpack_ofNat hk hk']
    have hlt : n < k := by
      by_contra hge
      apply h
      rw [le_iff_compare, hsame, ← le_iff_compare]
      exact ofNat_le_ofNat (by omega) (by omega)
    rw [le_iff_compare, hsame, ← le_iff_compare]
    exact ofNat_le_ofNat hlt hk'
  · have hmax : (ofNat maxSafe).toModel.unpack = maxSafeInteger.toModel.unpack := by
      rw [unpack_maxSafeInteger]
      with_unfolding_all rfl
    have hle : ofNat (n + 1) ≤ maxSafeInteger := by
      rw [le_iff_compare, ← hmax, ← le_iff_compare]
      exact ofNat_le_ofNat (by rw [maxSafe]; omega) (by rw [maxSafe]; omega)
    exact le_trans hle (le_of_lt hlarge)

end Js.Number
