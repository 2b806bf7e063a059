import Mathlib.Data.List.Infix

/-!
# Positions in a log

A log is a list that only grows at its end. `x :: l <:+ log` says that `x` stands in the log with `l` behind it,
`l ++ [x] <+: log` that it stands there behind `l`; `suffix_snoc` says what one more entry changes. The other lemmas are
the same for the places of a list of calls, which grows at its end too.
-/

namespace Js

variable {α : Type}

variable {l : List α} {x y : α} {j i : Nat}

theorem suffix_snoc {log : List α} {e : α} :
    x :: l <:+ log ++ [e] ↔ (x = e ∧ l = []) ∨ ∃ k, l = k ++ [e] ∧ x :: k <:+ log := by
  rw [List.suffix_concat_iff]
  constructor
  · rintro (h | ⟨t, ht, hsuffix⟩)
    · cases h
    · cases t with
      | nil =>
        simp only [List.nil_append, List.cons.injEq] at ht
        exact .inl ht
      | cons y k =>
        simp only [List.cons_append, List.cons.injEq] at ht
        obtain ⟨rfl, rfl⟩ := ht
        exact .inr ⟨k, rfl, hsuffix⟩
  · rintro (⟨rfl, rfl⟩ | ⟨k, rfl, hsuffix⟩)
    · exact .inr ⟨[], rfl, List.nil_suffix⟩
    · exact .inr ⟨x :: k, rfl, hsuffix⟩

theorem getElem?_snoc (h : (l ++ [x])[j]? = some y) :
    (j = l.length ∧ y = x) ∨ l[j]? = some y := by
  rcases Nat.lt_trichotomy j l.length with hlt | rfl | hgt
  · rw [List.getElem?_append_left hlt] at h
    exact .inr h
  · rw [List.getElem?_concat_length] at h
    cases h
    exact .inl ⟨rfl, rfl⟩
  · rw [List.getElem?_eq_none (by simp; omega)] at h
    cases h

theorem getElem?_set_cases (h : (l.set i x)[j]? = some y) :
    (j = i ∧ y = x) ∨ (j ≠ i ∧ l[j]? = some y) := by
  rw [List.getElem?_set] at h
  split at h
  · next hij =>
    split at h
    · cases h
      exact .inl ⟨hij.symm, rfl⟩
    · cases h
  · next hij => exact .inr ⟨fun hji => hij hji.symm, h⟩

theorem getElem?_set_of_some (h : l[j]? = some y) :
    (l.set i x)[j]? = some (if j = i then x else y) := by
  obtain ⟨hj, rfl⟩ := List.getElem?_eq_some_iff.mp h
  rw [List.getElem?_set]
  grind

end Js
