import PrReviewer.Enforcement.Obligations
import Mathlib.Data.List.Infix
import Mathlib.Data.String.Basic

/-!
# Code fences

`src/context/fence.ts`. `longestBacktickRun` is at least as long as any run of backticks in the text
(`le_longestBacktickRun`), so no part of a text is a line that closes the fence of its delimiter
(`not_closesFence`).
-/

open List

namespace PrReviewer.Context

open Enforcement (longestRun longestBacktickRun fenceDelimiterFor backticks)

def backtick : Char := Char.ofNat 0x60

/-- A line that closes a fence of `n` backticks: at most three blanks, at least as many backticks, and white space. -/
def ClosesFence (n : Nat) (line : List Char) : Prop :=
  ∃ indent run trail, line = List.replicate indent ' ' ++ List.replicate run backtick ++ trail ∧ indent ≤ 3 ∧ n ≤ run ∧
    ∀ c ∈ trail, c = ' ' ∨ c = '\t'

/-- The length of the delimiter of a text. -/
def fenceLength (data : String) : Nat := max 3 (longestBacktickRun data + 1)

theorem three_le_fenceLength (data : String) : 3 ≤ fenceLength data := le_max_left _ _

theorem fenceDelimiterFor_eq (data : String) : fenceDelimiterFor data = backticks (fenceLength data) := rfl

/-! ## Runs -/

theorem le_longestRun (cs : List Char) {longest run : Nat} : longest ≤ longestRun cs longest run := by
  induction cs generalizing longest run with
  | nil => exact le_refl _
  | cons c cs ih =>
    rw [longestRun]
    split
    · exact (le_max_left _ _).trans ih
    · exact ih

theorem run_le_longestRun {n : Nat} (cs : List Char) {longest run : Nat} :
    n ≠ 0 → run + n ≤ longestRun (List.replicate n backtick ++ cs) longest run := by
  induction n generalizing longest run with
  | zero => exact fun h => absurd rfl h
  | succ n ih =>
    intro _
    have hback : backtick.toNat = 0x60 := rfl
    rw [replicate_succ, cons_append, longestRun, if_pos hback]
    rcases Nat.eq_zero_or_pos n with rfl | hpos
    · exact (le_max_right _ _).trans (le_longestRun _)
    · have hle := @ih (max longest (run + 1)) (run + 1) hpos.ne'
      omega

theorem longestRun_mono (cs : List Char) {longest longest' run run' : Nat} (hlongest : longest ≤ longest')
    (hrun : run ≤ run') : longestRun cs longest run ≤ longestRun cs longest' run' := by
  induction cs generalizing longest longest' run run' with
  | nil => exact hlongest
  | cons c cs ih =>
    rw [longestRun, longestRun]
    split
    · exact ih (by omega) (by omega)
    · exact ih hlongest (le_refl _)

/-- Text in front only makes the longest run longer. -/
theorem longestRun_append (cs ds : List Char) {longest run : Nat} :
    longestRun ds 0 0 ≤ longestRun (cs ++ ds) longest run := by
  induction cs generalizing longest run with
  | nil => exact longestRun_mono ds (Nat.zero_le _) (Nat.zero_le _)
  | cons c cs ih =>
    rw [cons_append, longestRun]
    split <;> exact ih

/-- A longer text has a run that is at least as long. -/
theorem longestRun_le_append (cs ds : List Char) {longest run : Nat} :
    longestRun cs longest run ≤ longestRun (cs ++ ds) longest run := by
  induction cs generalizing longest run with
  | nil => exact le_longestRun ds
  | cons c cs ih =>
    rw [cons_append, longestRun, longestRun]
    split <;> exact ih

variable {n : Nat} {data : String} {line : List Char} {lines : List (List Char)}

theorem le_longestBacktickRun (h : List.replicate n backtick <:+: data.toList) :
    n ≤ longestBacktickRun data := by
  rcases Nat.eq_zero_or_pos n with rfl | hpos
  · exact Nat.zero_le _
  · obtain ⟨before, after, heq⟩ := h
    rw [longestBacktickRun, ← heq, append_assoc]
    have hrun := @run_le_longestRun n after 0 0 hpos.ne'
    exact (Nat.le_of_eq (Nat.zero_add n).symm).trans (hrun.trans (longestRun_append before _))

/-- No part of the text closes the fence of its delimiter. -/
theorem not_closesFence (h : line <:+: data.toList) :
    ¬ ClosesFence (fenceLength data) line := by
  rintro ⟨indent, run, trail, rfl, -, hle, -⟩
  have hrun : List.replicate run backtick <:+: data.toList :=
    (infix_append (List.replicate indent ' ') (List.replicate run backtick) trail).trans h
  have hlongest := le_longestBacktickRun hrun
  have hfence : longestBacktickRun data + 1 ≤ fenceLength data := le_max_right _ _
  omega

/-- A longer text has a delimiter that is at least as long. -/
theorem fenceLength_append (s t : String) : fenceLength s ≤ fenceLength (s ++ t) := by
  have hrun : longestBacktickRun s ≤ longestBacktickRun (s ++ t) := by
    rw [longestBacktickRun, longestBacktickRun, String.toList_append]
    exact longestRun_le_append _ _
  unfold fenceLength
  omega

/-! ## Lines with fences -/

/-- A line of joined lines is a part of them. -/
theorem infix_intercalate {line : String} {lines : List String} (h : line ∈ lines) :
    line.toList <:+: ("\n".intercalate lines).toList := by
  obtain ⟨before, after, rfl⟩ := append_of_mem h
  have hafter : line.toList <:+: ("\n".intercalate (line :: after)).toList := by
    rcases eq_or_ne after [] with rfl | hne
    · rw [String.intercalate_singleton]
    · rw [String.intercalate_cons_of_ne_nil hne, String.toList_append, String.toList_append, append_assoc]
      exact (prefix_append _ _).isInfix
  rcases eq_or_ne before [] with rfl | hne
  · exact hafter
  · rw [String.intercalate_append_of_ne_nil hne (by simp), String.toList_append]
    exact hafter.trans (suffix_append _ _).isInfix

/-- A line that may open a fence. -/
def OpensFence (line : List Char) : Prop :=
  ∃ indent c rest, (c = backtick ∨ c = '~') ∧ line = List.replicate indent ' ' ++ List.replicate 3 c ++ rest

/-- Lines in which every fence that a line opens is closed, with the lines in each of the fences. -/
inductive FencesClosed : List (List Char) → List (List (List Char)) → Prop where
  | nil : FencesClosed [] []
  | plain {line : List Char} {lines : List (List Char)} {bodies : List (List (List Char))} (h : ¬ OpensFence line)
      (hrest : FencesClosed lines bodies) : FencesClosed (line :: lines) bodies
  | fence {n : Nat} {body lines : List (List Char)} {bodies : List (List (List Char))} (hn : 3 ≤ n)
      (hbody : ∀ line ∈ body, ¬ ClosesFence n line) (hrest : FencesClosed lines bodies) :
      FencesClosed (List.replicate n backtick :: (body ++ List.replicate n backtick :: lines)) (body :: bodies)

theorem FencesClosed.append {lines' : List (List Char)} {bodies bodies' : List (List (List Char))}
    (h : FencesClosed lines bodies) (h' : FencesClosed lines' bodies') : FencesClosed (lines ++ lines') (bodies ++ bodies') := by
  induction h with
  | nil => exact h'
  | plain hline _ ih => exact .plain hline ih
  | fence hn hbody _ ih =>
    rw [cons_append, append_assoc, cons_append, cons_append]
    exact .fence hn hbody ih

theorem fencesClosed_of_plain (h : ∀ line ∈ lines, ¬ OpensFence line) : FencesClosed lines [] := by
  induction lines with
  | nil => exact .nil
  | cons line lines ih =>
    exact .plain (h line mem_cons_self) (ih fun other hother => h other (mem_cons_of_mem _ hother))

/-- A line that begins with another character opens no fence. -/
theorem not_opensFence (h : ∀ c ∈ line.head?, c ≠ ' ' ∧ c ≠ backtick ∧ c ≠ '~') : ¬ OpensFence line := by
  rintro ⟨indent, c, rest, hc, rfl⟩
  cases indent with
  | zero =>
    have hhead := h c rfl
    rcases hc with rfl | rfl
    · exact hhead.2.1 rfl
    · exact hhead.2.2 rfl
  | succ indent => exact (h ' ' rfl).1 rfl

theorem not_opensFence_nil : ¬ OpensFence [] := not_opensFence fun _ hc => nomatch hc

/-! ## Sizes -/

theorem longestRun_le (cs : List Char) {longest run : Nat} : longestRun cs longest run ≤ max longest (run + cs.length) := by
  induction cs generalizing longest run with
  | nil => exact le_max_left _ _
  | cons c cs ih =>
    rw [longestRun, length_cons]
    split
    · exact ih.trans (by omega)
    · exact ih.trans (by omega)

/-- The characters of a literal give its size. -/
theorem utf8ByteSize_ofList_eq {cs : List Char} (h : String.utf8Len cs = n) :
    (String.ofList cs).utf8ByteSize = n := by
  rw [String.utf8ByteSize_ofList, h]

/-- The size of joined lines with a line break behind each of them. -/
theorem utf8ByteSize_joined {parts : List String} (hne : parts ≠ []) :
    ("\n".intercalate parts ++ "\n").utf8ByteSize = (parts.map fun s => s.utf8ByteSize + 1).sum := by
  have hbreak : "\n".utf8ByteSize = 1 := by decide
  rw [String.utf8ByteSize_append, hbreak]
  induction parts with
  | nil => exact absurd rfl hne
  | cons s parts ih =>
    rw [map_cons, sum_cons]
    rcases eq_or_ne parts [] with rfl | hparts
    · rw [String.intercalate_singleton]
      rfl
    · rw [← ih hparts, String.intercalate_cons_of_ne_nil hparts, String.utf8ByteSize_append, String.utf8ByteSize_append, hbreak]
      omega

theorem length_le_utf8ByteSize (s : String) : s.length ≤ s.utf8ByteSize := by
  rw [← String.ofList_toList (s := s), String.utf8ByteSize_ofList, String.length_ofList]
  induction s.toList with
  | nil => exact Nat.zero_le _
  | cons c cs ih =>
    have hpos := c.utf8Size_pos
    rw [length_cons, String.utf8Len_cons]
    omega

theorem fenceLength_le (data : String) : fenceLength data ≤ data.utf8ByteSize + 3 := by
  have hrun : longestBacktickRun data ≤ max 0 (0 + data.toList.length) := longestRun_le data.toList
  have hlength := length_le_utf8ByteSize data
  rw [String.length_toList] at hrun
  unfold fenceLength
  omega

@[simp] theorem utf8ByteSize_backticks (n : Nat) : (backticks n).utf8ByteSize = n := by
  rw [backticks, String.utf8ByteSize_ofList]
  induction n with
  | zero => rfl
  | succ n ih =>
    rw [replicate_succ, String.utf8Len_cons, ih]
    rfl

end PrReviewer.Context
