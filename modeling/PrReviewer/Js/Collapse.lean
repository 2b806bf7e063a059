import PrReviewer.Js.Lines
import Mathlib.Data.List.Chain

/-!
# Runs collapsed to one blank

`collapse p cs` is `text.replace(/[p]+/g, " ")`. What it gives is `Collapsed`: of the class only the blank
is left, and no two of them are adjacent. A part of such a text is one too, and `collapse` keeps it, so a
text that was collapsed and trimmed is not changed by a second collapse (`oneLine_oneLine`).
-/

open List

namespace Js

/-- `text.replace(/[p]+/g, " ")`. -/
def collapse (p : Char → Bool) : List Char → List Char
  | [] => []
  | c :: cs =>
    if p c then if cs.head?.any p then collapse p cs else ' ' :: collapse p cs
    else c :: collapse p cs

/-- Of the class only single blanks are left. -/
structure Collapsed (p : Char → Bool) (cs : List Char) : Prop where
  blank : ∀ c ∈ cs, p c = true → c = ' '
  single : cs.IsChain fun c d => p c = true → p d = false

section

variable {p : Char → Bool}

variable {cs : List Char}

theorem Collapsed.part {ds : List Char} (h : Collapsed p cs) (hpart : ds <:+: cs) : Collapsed p ds :=
  ⟨fun c hc => h.blank c (hpart.mem hc), List.IsChain.infix h.single hpart⟩

theorem collapse_of_collapsed (h : Collapsed p cs) : collapse p cs = cs := by
  induction cs with
  | nil => rfl
  | cons c cs ih =>
    have htail := ih (h.part (suffix_cons c cs).isInfix)
    unfold collapse
    split
    · rename_i hc
      have hblank := h.blank c mem_cons_self hc
      have hhead : cs.head?.any p = false := by
        cases cs with
        | nil => rfl
        | cons d ds => exact (isChain_cons_cons.mp h.single).1 hc
      rw [hhead, htail, hblank]
      rfl
    · rw [htail]

theorem head?_collapse (hp : p ' ' = true) (cs : List Char) :
    (collapse p cs).head?.any p = cs.head?.any p := by
  induction cs with
  | nil => rfl
  | cons c cs ih =>
    unfold collapse
    split
    · rename_i hc
      split
      · rename_i hhead
        rw [ih, hhead]
        exact hc.symm
      · simp [hp, hc]
    · rfl

theorem collapsed_collapse (hp : p ' ' = true) (cs : List Char) : Collapsed p (collapse p cs) := by
  induction cs with
  | nil => exact ⟨by simp [collapse], isChain_nil⟩
  | cons c cs ih =>
    have hhead := head?_collapse hp cs
    have hcons : ∀ d : Char, (p d = true → d = ' ' ∧ cs.head?.any p = false) →
        Collapsed p (d :: collapse p cs) := by
      intro d hd
      refine ⟨fun e he hpe => ?_, ?_⟩
      · rcases mem_cons.mp he with rfl | he
        · exact (hd hpe).1
        · exact ih.blank e he hpe
      · cases hrest : collapse p cs with
        | nil => exact isChain_singleton d
        | cons e es =>
          have hchain := ih.single
          rw [hrest] at hchain hhead
          refine isChain_cons_cons.mpr ⟨fun hpd => ?_, hchain⟩
          rw [← (hd hpd).2, ← hhead]
          rfl
    unfold collapse
    split
    · split
      · exact ih
      · rename_i hnone
        exact hcons ' ' fun _ => ⟨rfl, Bool.not_eq_true _ ▸ hnone⟩
    · rename_i hc
      exact hcons c fun hpc => absurd hpc hc

end

theorem trim_infix (s : String) : (trim s).toList <:+: s.toList := by
  rw [trim_toList]
  exact (List.rdropWhile_prefix isSpace _).isInfix.trans (dropWhile_suffix isSpace).isInfix

/-- `text.replace(/[p]+/g, " ").trim()`. -/
def oneLine (p : Char → Bool) (s : String) : String := trim (String.ofList (collapse p s.toList))

theorem collapsed_oneLine {p : Char → Bool} (hp : p ' ' = true) (s : String) :
    Collapsed p (oneLine p s).toList := by
  have hinfix := trim_infix (String.ofList (collapse p s.toList))
  rw [String.toList_ofList] at hinfix
  exact (collapsed_collapse hp _).part hinfix

theorem oneLine_oneLine {p : Char → Bool} (hp : p ' ' = true) (s : String) :
    oneLine p (oneLine p s) = oneLine p s := by
  have hkept := collapse_of_collapsed (collapsed_oneLine hp s)
  conv_lhs => rw [oneLine, hkept, String.ofList_toList]
  exact trim_trim _

/-! ## The first character of a line -/

variable {s : String} {c : Char} {cs : List Char}

theorem trim_head (h : (trim s).toList.head? = some c) : isSpace c = false := by
  rw [← trim_trim] at h
  have hprefix : (trim (trim s)).toList <+: (trim s).toList.dropWhile isSpace := by
    rw [trim_toList (trim s)]
    exact rdropWhile_prefix ..
  obtain ⟨rest, hrest⟩ := hprefix
  have hnot := List.head?_dropWhile_not isSpace (trim s).toList
  rw [← hrest, List.head?_append, h] at hnot
  exact Bool.eq_false_iff.mpr (by simpa using hnot)

theorem oneLine_head {p : Char → Bool} (hp : p ' ' = true) {s : String} {c : Char}
    (h : (oneLine p s).toList.head? = some c) : isSpace c = false ∧ p c = false := by
  have hspace := trim_head h
  refine ⟨hspace, Bool.eq_false_iff.mpr fun hc => ?_⟩
  have hblank := (collapsed_oneLine hp s).blank c (List.mem_of_mem_head? h) hc
  rw [hblank] at hspace
  exact absurd hspace (by decide)

theorem trim_ne_empty (hc : isSpace c = false) :
    trim (String.ofList (c :: cs)) ≠ "" := by
  obtain ⟨text, spaces, -, htrim, hhead⟩ := exists_trim cs hc
  rw [htrim]
  intro hempty
  rw [String.ofList_eq_empty_iff] at hempty
  rw [hempty] at hhead
  cases hhead

/-- A text is trimmed to nothing exactly when it is white space. -/
theorem trim_eq_empty_iff (s : String) : trim s = "" ↔ ∀ c ∈ s.toList, isSpace c = true := by
  rw [← String.toList_eq_nil_iff, trim_toList, trimEnd, rdropWhile_eq_nil_iff]
  refine ⟨fun h => ?_, fun h c hc => h c ((dropWhile_suffix isSpace).mem hc)⟩
  have hnil : s.toList.dropWhile isSpace = [] := by
    cases hrest : s.toList.dropWhile isSpace with
    | nil => rfl
    | cons c cs =>
      have hnot := List.head?_dropWhile_not isSpace s.toList
      rw [hrest] at hnot h
      exact absurd (h c mem_cons_self) (by simpa using hnot)
  exact dropWhile_eq_nil_iff.mp hnil

theorem mem_collapse {p : Char → Bool} (h : c ∈ collapse p cs) :
    c = ' ' ∨ c ∈ cs := by
  induction cs with
  | nil => cases h
  | cons d cs ih =>
    unfold collapse at h
    split at h
    · split at h
      · exact (ih h).imp_right (mem_cons_of_mem d)
      · rcases mem_cons.mp h with rfl | h
        · exact .inl rfl
        · exact (ih h).imp_right (mem_cons_of_mem d)
    · rcases mem_cons.mp h with rfl | h
      · exact .inr mem_cons_self
      · exact (ih h).imp_right (mem_cons_of_mem d)

/-- A line with something on it is not blank. -/
theorem trim_of_oneLine {p : Char → Bool} (h : oneLine p s ≠ "") : trim s ≠ "" := by
  intro hblank
  rw [trim_eq_empty_iff] at hblank
  refine h ((trim_eq_empty_iff _).mpr fun c hc => ?_)
  rw [String.toList_ofList] at hc
  rcases mem_collapse hc with rfl | hmem
  · decide
  · exact hblank c hmem

theorem oneLine_ne_empty {p : Char → Bool}
    (h : s.toList.head? = some c) (hspace : isSpace c = false) (hc : p c = false) : oneLine p s ≠ "" := by
  obtain ⟨cs, hs⟩ := List.head?_eq_some_iff.mp h
  rw [oneLine, hs, collapse, hc]
  exact trim_ne_empty hspace

end Js
