import PrReviewer.Js.Value

/-!
# Parts joined at a character

`join sep parts` is `parts.join(sep)`, and `splitOn` gives back parts without the character (`splitOn_join`). What holds
of the characters of every part, and of the separator, holds of those of the joined text (`forall_mem_intercalate`).
-/

open List

namespace Js

variable {sep : Char}

/-- `parts.join(sep)`. -/
def join (sep : Char) (parts : List (List Char)) : List Char := [sep].intercalate parts

@[simp] theorem join_nil : join sep [] = [] := rfl

@[simp] theorem join_singleton (part : List Char) : join sep [part] = part := by
  simp [join]

theorem join_cons (part : List Char) {parts : List (List Char)} (h : parts ≠ []) :
    join sep (part :: parts) = part ++ sep :: join sep parts := by
  obtain ⟨next, rest, rfl⟩ := exists_cons_of_ne_nil h
  simp [join]

theorem join_append {parts parts' : List (List Char)} (h : parts ≠ []) (h' : parts' ≠ []) :
    join sep (parts ++ parts') = join sep parts ++ sep :: join sep parts' := by
  induction parts with
  | nil => exact absurd rfl h
  | cons part parts ih =>
    rw [cons_append, join_cons part (by simp [h'])]
    rcases eq_or_ne parts [] with rfl | hne
    · simp
    · rw [ih hne, join_cons part hne]
      simp

theorem splitOn_join {parts : List (List Char)} (h : ∀ part ∈ parts, sep ∉ part) (hne : parts ≠ []) :
    (join sep parts).splitOn sep = parts := splitOn_intercalate sep h hne

@[simp] theorem join_splitOn (cs : List Char) : join sep (cs.splitOn sep) = cs := intercalate_splitOn sep

theorem not_mem_of_mem_splitOn {α : Type} [BEq α] [LawfulBEq α] {sep : α} {cs part : List α}
    (h : part ∈ cs.splitOn sep) : sep ∉ part := by
  induction hlength : cs.length using Nat.strong_induction_on generalizing cs with
  | _ length ih =>
    subst hlength
    rcases Classical.em (sep ∈ cs) with hmem | hmem
    · obtain ⟨before, after, rfl, hbefore⟩ := eq_append_cons_of_mem hmem
      rw [splitOn_append_cons_self, splitOn_eq_singleton hbefore, singleton_append, mem_cons] at h
      rcases h with rfl | h
      · exact hbefore
      · exact ih after.length (by rw [length_append, length_cons]; omega) h rfl
    · rw [splitOn_eq_singleton hmem, mem_singleton] at h
      rwa [h]

theorem of_mem_splitOnP {p : Char → Bool} {cs part : List Char} {c : Char} (h : part ∈ cs.splitOnP p) (hc : c ∈ part) :
    p c = false := by
  induction cs generalizing part with
  | nil =>
    rw [splitOnP_nil, mem_singleton] at h
    rw [h] at hc
    cases hc
  | cons d cs ih =>
    rw [splitOnP_cons_eq_if_modifyHead] at h
    split at h
    · rcases mem_cons.mp h with rfl | h
      · cases hc
      · exact ih h hc
    · next hd =>
      obtain ⟨first, rest, hsplit⟩ := exists_cons_of_ne_nil (splitOnP_ne_nil p cs)
      rw [hsplit, modifyHead_cons] at h
      rcases mem_cons.mp h with rfl | h
      · rcases mem_cons.mp hc with rfl | hc
        · exact Bool.eq_false_iff.mpr hd
        · exact ih (by rw [hsplit]; exact mem_cons_self) hc
      · exact ih (by rw [hsplit]; exact mem_cons_of_mem _ h) hc

theorem forall_mem_intercalate {P : Char → Prop} {s : String} {parts : List String} (hs : ∀ c ∈ s.toList, P c)
    (h : ∀ part ∈ parts, ∀ c ∈ part.toList, P c) : ∀ c ∈ (s.intercalate parts).toList, P c := by
  induction parts with
  | nil => simp
  | cons part parts ih =>
    have hpart := h part mem_cons_self
    have hparts := ih fun other hother => h other (mem_cons_of_mem _ hother)
    rcases eq_or_ne parts [] with rfl | hne
    · rwa [String.intercalate_singleton]
    · rw [String.intercalate_cons_of_ne_nil hne, String.toList_append, String.toList_append]
      intro c hc
      rcases mem_append.mp hc with hc | hc
      · exact (mem_append.mp hc).elim (hpart c) (hs c)
      · exact hparts c hc

end Js
