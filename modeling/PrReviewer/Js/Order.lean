import PrReviewer.Js.Number

/-!
# The order of JavaScript numbers

A comparison that answers `true` compares two numbers that are not `NaN` (`not_isNaN_of_le`), and on these
`<` and `≤` are the order of their `rank`. So chains of comparisons compose as for any linear order.
-/

open Float.Model

namespace Js.Number

variable {x y z : Number}

theorem not_isNaN_of_le (h : x ≤ y) : x.isNaN = false ∧ y.isNaN = false := by
  rw [le_iff_compare] at h
  constructor
  · by_contra hx
    rw [Bool.not_eq_false, isNaN_iff] at hx
    rw [hx] at h
    cases h
  · by_contra hy
    rw [Bool.not_eq_false, isNaN_iff] at hy
    rw [hy] at h
    revert h
    cases x.toModel.unpack <;> simp [UnpackedFloat.compare]

theorem rank_le_of_le (h : x ≤ y) : rank x ≤ rank y :=
  (le_iff_rank (not_isNaN_of_le h).1 (not_isNaN_of_le h).2).mp h

theorem rank_lt_of_lt (h : x < y) : rank x < rank y :=
  (lt_iff_rank (not_isNaN_of_le (le_of_lt h)).1 (not_isNaN_of_le (le_of_lt h)).2).mp h

theorem le_trans (h : x ≤ y) (h' : y ≤ z) : x ≤ z :=
  (le_iff_rank (not_isNaN_of_le h).1 (not_isNaN_of_le h').2).mpr
    ((rank_le_of_le h).trans (rank_le_of_le h'))

theorem lt_of_le_of_lt (h : x ≤ y) (h' : y < z) : x < z :=
  (lt_iff_rank (not_isNaN_of_le h).1 (not_isNaN_of_le (le_of_lt h')).2).mpr
    ((rank_le_of_le h).trans_lt (rank_lt_of_lt h'))

theorem lt_of_lt_of_le (h : x < y) (h' : y ≤ z) : x < z :=
  (lt_iff_rank (not_isNaN_of_le (le_of_lt h)).1 (not_isNaN_of_le h').2).mpr
    ((rank_lt_of_lt h).trans_le (rank_le_of_le h'))

end Js.Number
