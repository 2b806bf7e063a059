import PrReviewer.Js.Value
import Mathlib.Data.List.Infix

/-!
# Cutting strings

`sliceTo n s` is a beginning of `s` (`prefix_takeUnits`) of at most `n` units (`strLength_sliceTo`), and all of `s` when
`s` is that short (`sliceTo_of_le`). So a text that has been cut is not cut again.
-/

namespace Js

theorem prefix_takeUnits (n : Nat) (cs : List Char) : takeUnits n cs <+: cs := by
  induction cs generalizing n with
  | nil => simp [takeUnits]
  | cons c cs ih =>
    rw [takeUnits]
    split
    · exact List.cons_prefix_cons.mpr ⟨rfl, ih _⟩
    · exact List.nil_prefix

theorem length_takeUnits (n : Nat) (cs : List Char) : ((takeUnits n cs).flatMap charUnits).length ≤ n := by
  induction cs generalizing n with
  | nil => exact Nat.zero_le _
  | cons c cs ih =>
    rw [takeUnits]
    split
    · next hc =>
      rw [List.flatMap_cons, List.length_append]
      have := ih (n - (charUnits c).length)
      omega
    · exact Nat.zero_le _

variable {n : Nat} {s : String}

theorem takeUnits_of_le {cs : List Char} (h : (cs.flatMap charUnits).length ≤ n) : takeUnits n cs = cs := by
  induction cs generalizing n with
  | nil => rfl
  | cons c cs ih =>
    rw [List.flatMap_cons, List.length_append] at h
    rw [takeUnits, if_pos (by omega), ih (by omega)]

theorem strLength_sliceTo (n : Nat) (s : String) : strLength (sliceTo n s) ≤ n := by
  rw [strLength, utf16, sliceTo, String.toList_ofList]
  exact length_takeUnits n s.toList

theorem sliceTo_of_le (h : strLength s ≤ n) : sliceTo n s = s := by
  rw [sliceTo, takeUnits_of_le h, String.ofList_toList]

theorem mem_of_mem_sliceTo {c : Char} (h : c ∈ (sliceTo n s).toList) : c ∈ s.toList := by
  rw [sliceTo, String.toList_ofList] at h
  exact (prefix_takeUnits n s.toList).subset h

end Js
