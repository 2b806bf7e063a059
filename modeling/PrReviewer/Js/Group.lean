import PrReviewer.Js.Map
import Mathlib.Data.List.Induction

/-!
# Grouping

`groupBy key as` collects the elements under their keys: `get?_groupBy` gives the group of a key as a
filter, and all groups together are the elements, in some order (`perm_groupBy`).
-/

open List

namespace Js

variable {α κ : Type} [DecidableEq κ]

/-- The elements under their keys, the groups in the order in which they were met. -/
def groupBy (key : α → κ) (as : List α) : Map κ (List α) :=
  as.foldl (fun m a => m.set (key a) ((m.get? (key a)).getD [] ++ [a])) .empty

/-- The group of a key. -/
def groupOf (key : α → κ) (as : List α) (k : κ) : List α := as.filter fun a => key a = k

theorem get?_groupBy (key : α → κ) (as : List α) (k : κ) :
    (groupBy key as).get? k = if groupOf key as k = [] then none else some (groupOf key as k) := by
  induction as using List.reverseRecOn with
  | nil => rfl
  | append_singleton as a ih =>
    have hstep : groupBy key (as ++ [a]) =
        (groupBy key as).set (key a) (((groupBy key as).get? (key a)).getD [] ++ [a]) := by
      simp [groupBy, foldl_append]
    have hgroup : groupOf key (as ++ [a]) k = groupOf key as k ++ if key a = k then [a] else [] := by
      rw [groupOf, filter_append]
      by_cases ha : key a = k <;> simp [groupOf, ha]
    rw [hstep, hgroup, Map.get?_set]
    by_cases ha : key a = k
    · subst ha
      rw [if_pos rfl, if_pos rfl, ih]
      split
      · next hnil => simp [hnil]
      · simp
    · rw [if_neg (Ne.symm ha), if_neg ha, ih, append_nil]

theorem mem_groupBy {key : α → κ} {as : List α} {k : κ} {g : List α} :
    (k, g) ∈ (groupBy key as).entries ↔ (∃ a ∈ as, key a = k) ∧ g = groupOf key as k := by
  rw [Map.mem_entries_iff, get?_groupBy]
  have hempty : groupOf key as k = [] ↔ ¬ ∃ a ∈ as, key a = k := by
    simp [groupOf, filter_eq_nil_iff]
  split
  · next h => simp [hempty.mp h]
  · next h =>
    have hsome : ∃ a ∈ as, key a = k := by
      by_contra hno
      exact h (hempty.mpr hno)
    rw [Option.some.injEq]
    exact ⟨fun heq => ⟨hsome, heq.symm⟩, fun hand => hand.2.symm⟩

theorem perm_setEntries (k : κ) (a : α) (es : List (κ × List α)) :
    ((Map.setEntries k ((es.lookup k).getD [] ++ [a]) es).map Prod.snd).flatten.Perm
      ((es.map Prod.snd).flatten ++ [a]) := by
  induction es with
  | nil => simp [Map.setEntries]
  | cons e es ih =>
    rw [Map.lookup_cons_ite, Map.setEntries]
    by_cases he : e.1 = k
    · subst he
      simp only [if_true, Option.getD_some, map_cons, flatten_cons, append_assoc]
      exact (perm_append_comm).append_left e.2
    · simp only [he, Ne.symm he, if_false, map_cons, flatten_cons, append_assoc]
      exact ih.append_left e.2

/-- The groups hold the elements, each as often as it occurs. -/
theorem perm_groupBy (key : α → κ) (as : List α) : (groupBy key as).values.flatten.Perm as := by
  induction as using List.reverseRecOn with
  | nil => exact .refl _
  | append_singleton as a ih =>
    have hstep : groupBy key (as ++ [a]) =
        (groupBy key as).set (key a) (((groupBy key as).get? (key a)).getD [] ++ [a]) := by
      simp [groupBy, foldl_append]
    rw [hstep]
    exact (perm_setEntries (key a) a _).trans (ih.append_right [a])

theorem mem_groupOf {key : α → κ} {as : List α} {k : κ} {a : α} : a ∈ groupOf key as k ↔ a ∈ as ∧ key a = k := by
  rw [groupOf, mem_filter, decide_eq_true_eq]

/-- The groups of some keys hold the elements with one of these keys. -/
theorem perm_flatMap_groupOf (key : α → κ) (as : List α) {ks : List κ} (h : ks.Nodup) :
    (ks.flatMap (groupOf key as)).Perm (as.filter fun a => key a ∈ ks) := by
  induction ks with
  | nil => simp
  | cons k ks ih =>
    rw [nodup_cons] at h
    have hsplit := filter_append_perm (fun a => decide (key a = k)) (as.filter fun a => key a ∈ k :: ks)
    have hfirst : (as.filter fun a => key a ∈ k :: ks).filter (fun a => decide (key a = k)) = groupOf key as k := by
      rw [filter_filter, groupOf]
      refine filter_congr fun a _ => ?_
      by_cases ha : key a = k <;> simp [ha]
    have hrest : (as.filter fun a => key a ∈ k :: ks).filter (fun a => !decide (key a = k)) =
        as.filter fun a => key a ∈ ks := by
      rw [filter_filter]
      refine filter_congr fun a _ => ?_
      by_cases ha : key a = k
      · simp [ha, h.1]
      · simp [ha]
    rw [hfirst, hrest] at hsplit
    rw [flatMap_cons]
    exact ((ih h.2).append_left _).trans hsplit

end Js
