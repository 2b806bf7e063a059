import Mathlib.Data.List.Nodup
import Mathlib.Data.List.Perm.Basic

/-!
# Lists without repetitions

`eraseDups` keeps the first of equal elements, as a JavaScript `Set` does: the result has no repetition
(`nodup_eraseDups`), and any choice of elements can be brought to its front by reordering the list it is made of
(`exists_perm_eraseDups`).
-/

open List

namespace Js

variable {α β : Type} [DecidableEq β]

theorem nodup_eraseDups (l : List β) : l.eraseDups.Nodup := by
  induction hn : l.length using Nat.strongRecOn generalizing l with
  | _ n ih =>
    cases l with
    | nil => simp
    | cons a as =>
      rw [eraseDups_cons, nodup_cons]
      have hless : (as.filter fun b => !b == a).length < n := by
        rw [← hn]
        exact Nat.lt_succ_of_le (length_filter_le _ _)
      refine ⟨?_, ih _ hless _ rfl⟩
      rw [mem_eraseDups]
      simp

theorem eraseDups_of_nodup {l : List β} (h : l.Nodup) : l.eraseDups = l := by
  induction l with
  | nil => rfl
  | cons a as ih =>
    rw [nodup_cons] at h
    have hself : (as.filter fun b => !b == a) = as := by
      rw [filter_eq_self]
      intro b hb
      simp only [Bool.not_eq_true', beq_eq_false_iff_ne, ne_eq]
      rintro rfl
      exact h.1 hb
    rw [eraseDups_cons, hself, ih h.2]

theorem eraseDups_filter (p : β → Bool) (l : List β) : (l.filter p).eraseDups = l.eraseDups.filter p := by
  induction hn : l.length using Nat.strongRecOn generalizing l with
  | _ n ih =>
    cases l with
    | nil => rfl
    | cons a as =>
      have hless : (as.filter fun b => !b == a).length < n := by
        rw [← hn]
        exact Nat.lt_succ_of_le (length_filter_le _ _)
      have hswap : (as.filter p).filter (fun b => !b == a) = (as.filter fun b => !b == a).filter p := by
        rw [filter_filter, filter_filter]
        exact filter_congr fun b _ => Bool.and_comm _ _
      rw [eraseDups_cons, filter_cons, filter_cons]
      split
      · rw [eraseDups_cons, hswap, ih _ hless _ rfl]
      · next ha =>
        have hself : (as.filter p).filter (fun b => !b == a) = as.filter p := by
          rw [filter_eq_self]
          intro b hb
          simp only [Bool.not_eq_true', beq_eq_false_iff_ne, ne_eq]
          rintro rfl
          exact ha (mem_filter.mp hb).2
        rw [← ih _ hless _ rfl, ← hswap, hself]

/-- The elements that are read as `c` first, the others after them. -/
def bringFront (pick : α → Option β) (c : β) (l : List α) : List α :=
  l.filter (fun a => pick a == some c) ++ l.filter fun a => !(pick a == some c)

theorem bringFront_perm (pick : α → Option β) (c : β) (l : List α) : (bringFront pick c l).Perm l :=
  filter_append_perm _ _

theorem filterMap_bringFront (pick : α → Option β) (c : β) (l : List α) :
    (bringFront pick c l).filterMap pick =
      (l.filterMap pick).filter (· == c) ++ (l.filterMap pick).filter fun b => !b == c := by
  rw [bringFront, filterMap_append]
  congr 1
  all_goals
    induction l with
    | nil => rfl
    | cons a l ih =>
      cases ha : pick a with
      | none => simp [ha, ih]
      | some b =>
        by_cases hb : b = c
        · simp [ha, hb, ih]
        · simp [ha, hb, ih]

theorem eraseDups_bringFront {pick : α → Option β} {c : β} {l : List α} (hc : c ∈ l.filterMap pick) :
    ((bringFront pick c l).filterMap pick).eraseDups = c :: (l.filterMap pick).eraseDups.filter fun b => !b == c := by
  rw [filterMap_bringFront]
  cases hfront : (l.filterMap pick).filter (· == c) with
  | nil =>
    have hmem : c ∈ (l.filterMap pick).filter (· == c) := mem_filter.mpr ⟨hc, beq_self_eq_true c⟩
    rw [hfront] at hmem
    exact absurd hmem not_mem_nil
  | cons b bs =>
    have hall : ∀ d ∈ b :: bs, d = c := by
      intro d hd
      rw [← hfront] at hd
      exact eq_of_beq (mem_filter.mp hd).2
    obtain rfl := hall b mem_cons_self
    rw [cons_append, eraseDups_cons, filter_append, filter_filter]
    have hnil : bs.filter (fun d => !d == b) = [] := by
      rw [filter_eq_nil_iff]
      intro d hd
      simp [hall d (mem_cons_of_mem _ hd)]
    simp only [Bool.and_self]
    rw [hnil, nil_append, eraseDups_filter]

/-- Some reordering of the list begins, without its repetitions, with the chosen elements in the given order. -/
theorem exists_perm_eraseDups (pick : α → Option β) {cs : List β} (hnodup : cs.Nodup) (l : List α)
    (hcs : ∀ c ∈ cs, c ∈ l.filterMap pick) :
    ∃ (l' : List α) (rest : List β), l'.Perm l ∧ (l'.filterMap pick).eraseDups = cs ++ rest := by
  induction cs with
  | nil => exact ⟨l, _, .refl _, (nil_append _).symm⟩
  | cons c cs ih =>
    rw [nodup_cons] at hnodup
    obtain ⟨l', rest, hperm, heq⟩ := ih hnodup.2 fun d hd => hcs d (mem_cons_of_mem _ hd)
    have hc : c ∈ l'.filterMap pick := (hperm.filterMap pick).mem_iff.mpr (hcs c mem_cons_self)
    refine ⟨bringFront pick c l', rest.filter fun b => !b == c, (bringFront_perm pick c l').trans hperm, ?_⟩
    rw [eraseDups_bringFront hc, heq, filter_append, cons_append]
    congr 2
    rw [filter_eq_self]
    intro d hd
    simp only [Bool.not_eq_true', beq_eq_false_iff_ne, ne_eq]
    rintro rfl
    exact hnodup.1 hd

end Js
