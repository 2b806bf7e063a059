import PrReviewer.Js.Value
import Mathlib.Data.List.TakeWhile

/-!
# Cutting at a character

A text before and after the first, or the last, place of a character. Nothing here is about the action.
-/

open List

namespace Js

variable {sep : Char} {cs before after : List Char}

/-- The text before the last `sep`, if there is one, and the text after it. -/
def cutAtLast (sep : Char) (cs : List Char) : Option (List Char) × List Char :=
  ((cs.reverse.dropWhile (· != sep)).tail?.map List.reverse,
    (cs.reverse.takeWhile (· != sep)).reverse)

theorem takeWhile_ne_append (h : sep ∉ before) (after : List Char) :
    (before ++ sep :: after).takeWhile (· != sep) = before := by
  induction before with
  | nil => simp
  | cons c cs ih =>
    rw [mem_cons, not_or] at h
    rw [cons_append, takeWhile_cons_of_pos (by simpa using Ne.symm h.1), ih h.2]

theorem dropWhile_ne_append (h : sep ∉ before) (after : List Char) :
    (before ++ sep :: after).dropWhile (· != sep) = sep :: after := by
  induction before with
  | nil => simp
  | cons c cs ih =>
    rw [mem_cons, not_or] at h
    rw [cons_append, dropWhile_cons_of_pos (by simpa using Ne.symm h.1), ih h.2]

/-- The first place of a character divides a text in one way. -/
theorem append_sep_inj {before' after' : List Char} (h : sep ∉ before) (h' : sep ∉ before')
    (heq : before ++ sep :: after = before' ++ sep :: after') : before = before' ∧ after = after' := by
  have hbefore := takeWhile_ne_append h after
  have hrest := dropWhile_ne_append h after
  rw [heq, takeWhile_ne_append h'] at hbefore
  rw [heq, dropWhile_ne_append h'] at hrest
  exact ⟨hbefore.symm, (List.cons.inj hrest).2.symm⟩

theorem cutAtLast_append (before : List Char) (h : sep ∉ after) :
    cutAtLast sep (before ++ sep :: after) = (some before, after) := by
  have hreverse : (before ++ sep :: after).reverse = after.reverse ++ sep :: before.reverse := by simp
  have hafter : sep ∉ after.reverse := by simpa using h
  rw [cutAtLast, hreverse, takeWhile_ne_append hafter, dropWhile_ne_append hafter]
  simp

theorem cutAtLast_of_not_mem (h : sep ∉ cs) : cutAtLast sep cs = (none, cs) := by
  have hall : ∀ c ∈ cs.reverse, (c != sep) = true := by
    intro c hc
    rw [bne_iff_ne]
    rintro rfl
    exact h (mem_reverse.mp hc)
  rw [cutAtLast, dropWhile_eq_nil_iff.mpr hall, takeWhile_eq_self_iff.mpr hall]
  simp

/-- A text with the character is cut at its last one. -/
theorem exists_cutAtLast (h : sep ∈ cs) :
    ∃ before after, cs = before ++ sep :: after ∧ sep ∉ after ∧
      cutAtLast sep cs = (some before, after) := by
  obtain ⟨a, b, hab, hb⟩ := eq_append_cons_of_mem (mem_reverse.mpr h)
  have hcs : cs = b.reverse ++ sep :: a.reverse := by
    rw [← reverse_reverse cs, hab]
    simp
  have ha : sep ∉ a.reverse := by simpa using hb
  exact ⟨_, _, hcs, ha, by rw [hcs]; exact cutAtLast_append _ ha⟩

end Js
