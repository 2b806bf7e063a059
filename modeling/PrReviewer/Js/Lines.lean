import PrReviewer.Js.Value
import Mathlib.Data.List.DropRight
import Mathlib.Data.List.Lex
import Mathlib.Data.List.Sort

/-!
# Sorted strings and lines of text

Strings are sorted by their UTF-16 code units. `splitOn` breaks a text into its lines, and `blocks_injective` a list
of lines into blocks.
-/

open List

namespace Js

/-! ## Sorting -/

theorem charUnits_append_inj {c d : Char} {us vs : List Nat}
    (h : charUnits c ++ us = charUnits d ++ vs) : c = d ∧ us = vs := by
  have hc := c.valid
  have hd := d.valid
  have hnat : c.toNat = d.toNat → c = d := fun h => Char.toNat_inj.mp h
  simp only [UInt32.isValidChar, Nat.isValidChar] at hc hd
  change c.toNat < 55296 ∨ 57343 < c.toNat ∧ c.toNat < 1114112 at hc
  change d.toNat < 55296 ∨ 57343 < d.toNat ∧ d.toNat < 1114112 at hd
  unfold charUnits at h
  split at h <;> split at h <;> simp only [cons_append, nil_append, List.cons.injEq] at h
  · exact ⟨hnat h.1, h.2⟩
  · exact absurd h.1 (by omega)
  · exact absurd h.1 (by omega)
  · exact ⟨hnat (by omega), h.2.2⟩

theorem utf16_injective {a b : String} (h : utf16 a = utf16 b) : a = b := by
  have hlist : ∀ cs ds : List Char, cs.flatMap charUnits = ds.flatMap charUnits → cs = ds := by
    have hne : ∀ c : Char, ∀ us, charUnits c ++ us ≠ [] := by
      intro c us
      unfold charUnits
      split <;> simp
    intro cs
    induction cs with
    | nil =>
      intro ds hds
      cases ds with
      | nil => rfl
      | cons d ds => exact absurd hds.symm (hne d _)
    | cons c cs ih =>
      intro ds hds
      cases ds with
      | nil => exact absurd hds (hne c _)
      | cons d ds =>
        rw [flatMap_cons, flatMap_cons] at hds
        obtain ⟨rfl, hrest⟩ := charUnits_append_inj hds
        rw [ih ds hrest]
  exact String.toList_inj.mp (hlist _ _ h)

/-- `strings.sort()`. -/
def sortStrings (l : List String) : List String := l.insertionSort fun a b => !strLt b a

theorem perm_sortStrings (l : List String) : (sortStrings l).Perm l := perm_insertionSort _ _

@[simp] theorem mem_sortStrings {l : List String} {s : String} : s ∈ sortStrings l ↔ s ∈ l :=
  mem_insertionSort _

theorem pairwise_sortStrings (l : List String) :
    (sortStrings l).Pairwise fun a b => utf16 a ≤ utf16 b := by
  have hiff : ∀ a b : String, (!strLt b a) = true ↔ utf16 a ≤ utf16 b := by
    intro a b
    rw [strLt, Bool.not_eq_true', decide_eq_false_iff_not]
    exact not_lt
  have hsorted : (sortStrings l).Pairwise fun a b => (!strLt b a) = true :=
    @pairwise_insertionSort String (fun a b => (!strLt b a) = true) _
      ⟨fun a b => by rw [hiff, hiff]; exact le_total _ _⟩
      ⟨fun a b c => by rw [hiff, hiff, hiff]; exact le_trans⟩ l
  exact hsorted.imp fun h => (hiff _ _).mp h

/-- The sorted strings do not depend on the order in which the strings were given. -/
theorem sortStrings_eq {l l' : List String} (h : l.Perm l') : sortStrings l = sortStrings l' :=
  List.Perm.eq_of_pairwise (fun _ _ _ _ hab hba => utf16_injective (le_antisymm hab hba))
    (pairwise_sortStrings l) (pairwise_sortStrings l')
    ((perm_sortStrings l).trans (h.trans (perm_sortStrings l').symm))

/-! ## Lines -/

section Lines

variable {α : Type} [DecidableEq α] {x : α}

/-- A text without line breaks goes to the front of the first line. -/
theorem splitOn_append_of_not_mem {xs : List α} (h : x ∉ xs) (ys : List α) :
    ∃ y ls, ys.splitOn x = y :: ls ∧ (xs ++ ys).splitOn x = (xs ++ y) :: ls := by
  obtain ⟨y, ls, hls⟩ := exists_cons_of_ne_nil (splitOn_ne_nil x ys)
  refine ⟨y, ls, hls, ?_⟩
  induction xs with
  | nil => exact hls
  | cons a xs ih =>
    rw [mem_cons, not_or] at h
    have ha : (a == x) = false := by simpa using Ne.symm h.1
    rw [cons_append, splitOn_cons_eq_if_modifyHead, ha, ih h.2]
    rfl

/-- The lines of joined texts are the lines of each of them. -/
theorem splitOn_intercalate_flatMap (x : α) {ls : List (List α)} (h : ls ≠ []) :
    ([x].intercalate ls).splitOn x = ls.flatMap (List.splitOn x) := by
  induction ls with
  | nil => exact absurd rfl h
  | cons l ls ih =>
    cases ls with
    | nil => simp
    | cons l' ls =>
      rw [intercalate_cons_cons, append_assoc, singleton_append,
        splitOn_append_cons_self, ih (by simp)]
      rfl

/-- The lines of a prefix of a text are prefixes of lines of the text, the first one of the first one
and the others of others. -/
theorem splitOn_append_prefix (x : α) (xs ys : List α) : ∃ y ls z ms, xs.splitOn x = y :: ls ∧
    (xs ++ ys).splitOn x = z :: ms ∧ y <+: z ∧ ∀ l ∈ ls, ∃ m ∈ ms, l <+: m := by
  induction xs with
  | nil =>
    obtain ⟨z, ms, hms⟩ := exists_cons_of_ne_nil (splitOn_ne_nil x ys)
    exact ⟨[], [], z, ms, by simp, hms, nil_prefix, by simp⟩
  | cons a xs ih =>
    obtain ⟨y, ls, z, ms, hls, hms, hpre, htail⟩ := ih
    rw [cons_append, splitOn_cons_eq_if_modifyHead, splitOn_cons_eq_if_modifyHead,
      hls, hms]
    by_cases ha : (a == x) = true
    · rw [if_pos ha, if_pos ha]
      refine ⟨[], y :: ls, [], z :: ms, rfl, rfl, prefix_rfl, ?_⟩
      intro l hl
      rcases mem_cons.mp hl with rfl | hl
      · exact ⟨z, mem_cons_self, hpre⟩
      · obtain ⟨m, hm, hlm⟩ := htail l hl
        exact ⟨m, mem_cons_of_mem _ hm, hlm⟩
    · rw [if_neg ha, if_neg ha]
      exact ⟨a :: y, ls, a :: z, ms, rfl, rfl, cons_prefix_cons.mpr ⟨rfl, hpre⟩, htail⟩

end Lines

/-- A block begins with an element of `p` and has no other. -/
def IsBlock {α : Type} (p : α → Prop) (b : List α) : Prop :=
  ∃ x xs, b = x :: xs ∧ p x ∧ ∀ y ∈ xs, ¬ p y

/-- The rest of a block is what comes before the next element of `p`. -/
theorem block_append_inj {α : Type} {p : α → Prop} {xs ys us vs : List α} (hxs : ∀ x ∈ xs, ¬ p x)
    (hys : ∀ y ∈ ys, ¬ p y) (hus : ∀ u ∈ us.head?, p u) (hvs : ∀ v ∈ vs.head?, p v)
    (h : xs ++ us = ys ++ vs) : xs = ys ∧ us = vs := by
  induction xs generalizing ys with
  | nil =>
    cases ys with
    | nil => exact ⟨rfl, h⟩
    | cons y ys =>
      rw [nil_append] at h
      exact absurd (hus y (by simp [h])) (hys y mem_cons_self)
  | cons x xs ih =>
    cases ys with
    | nil =>
      rw [nil_append] at h
      exact absurd (hvs x (by simp [← h])) (hxs x mem_cons_self)
    | cons y ys =>
      rw [cons_append, cons_append, List.cons.injEq] at h
      obtain ⟨rfl, hrest⟩ := h
      obtain ⟨rfl, rfl⟩ := ih (fun z hz => hxs z (mem_cons_of_mem _ hz))
        (fun z hz => hys z (mem_cons_of_mem _ hz)) hrest
      exact ⟨rfl, rfl⟩

/-- The elements of a list of blocks start with the first element of a block. -/
theorem head?_flatten_blocks {α : Type} {p : α → Prop} {bs : List (List α)}
    (hb : ∀ b ∈ bs, IsBlock p b) : ∀ u ∈ bs.flatten.head?, p u := by
  cases bs with
  | nil => simp
  | cons b bs =>
    obtain ⟨x, xs, rfl, hx, -⟩ := hb b mem_cons_self
    intro u hu
    simp only [flatten_cons, cons_append, List.head?_cons, Option.mem_def,
      Option.some.injEq] at hu
    exact hu ▸ hx

/-- A list has one division into blocks. -/
theorem blocks_injective {α : Type} {p : α → Prop} {bs cs : List (List α)}
    (hb : ∀ b ∈ bs, IsBlock p b) (hc : ∀ c ∈ cs, IsBlock p c) (h : bs.flatten = cs.flatten) :
    bs = cs := by
  induction bs generalizing cs with
  | nil =>
    cases cs with
    | nil => rfl
    | cons c cs =>
      obtain ⟨x, xs, rfl, -⟩ := hc c mem_cons_self
      cases h
  | cons b bs ih =>
    obtain ⟨x, xs, rfl, -, hxs⟩ := hb b mem_cons_self
    have hb' : ∀ b ∈ bs, IsBlock p b := fun b' hb' => hb b' (mem_cons_of_mem _ hb')
    cases cs with
    | nil => cases h
    | cons c cs =>
      obtain ⟨y, ys, rfl, -, hys⟩ := hc c mem_cons_self
      have hc' : ∀ c ∈ cs, IsBlock p c := fun c' hc' => hc c' (mem_cons_of_mem _ hc')
      rw [flatten_cons, flatten_cons, cons_append, cons_append,
        List.cons.injEq] at h
      obtain ⟨rfl, hrest⟩ := h
      obtain ⟨rfl, hflat⟩ := block_append_inj hxs hys (head?_flatten_blocks hb')
        (head?_flatten_blocks hc') hrest
      rw [ih hb' hc' hflat]

/-! ## Trimming -/

/-- White space at the end. -/
def trimEnd (cs : List Char) : List Char := cs.rdropWhile isSpace

theorem trim_toList (s : String) : (trim s).toList = trimEnd (s.toList.dropWhile isSpace) := by
  rw [trim, String.toList_ofList]
  rfl

/-- A trimmed text has no white space in front, and trimming it again changes nothing. -/
theorem trim_trim (s : String) : trim (trim s) = trim s := by
  have hstart : (trimEnd (s.toList.dropWhile isSpace)).dropWhile isSpace =
      trimEnd (s.toList.dropWhile isSpace) := by
    have hprefix : trimEnd (s.toList.dropWhile isSpace) <+: s.toList.dropWhile isSpace :=
      rdropWhile_prefix ..
    rw [dropWhile_eq_self_iff]
    intro hpos
    obtain ⟨hlen, heq⟩ := prefix_iff_getElem.mp hprefix
    rw [heq 0 hpos]
    exact dropWhile_get_zero_not isSpace s.toList (by omega)
  rw [← String.toList_inj, trim_toList, trim_toList, hstart]
  exact rdropWhile_idempotent ..

/-- `trim` of a text that begins with `cs`, whose ends are no white space. -/
theorem trim_append {s : String} {c d : Char} {cs ds : List Char}
    (h : s.toList = c :: cs ++ d :: ds) (hc : isSpace c = false) (hd : isSpace d = false) :
    (trim s).toList = c :: cs ++ d :: trimEnd ds := by
  have hstart : s.toList.dropWhile isSpace = c :: cs ++ d :: ds := by
    rw [h, cons_append, dropWhile_cons, hc]
    rfl
  rw [trim_toList, hstart, trimEnd, List.rdropWhile, trimEnd, List.rdropWhile]
  simp only [reverse_append, reverse_cons, append_assoc, singleton_append]
  rw [dropWhile_append]
  split
  · next hnil =>
    rw [List.isEmpty_iff] at hnil
    simp [hnil, hd]
  · simp

theorem trimEnd_append_of_space {cs ws : List Char} (h : ∀ c ∈ ws, isSpace c = true) :
    trimEnd (cs ++ ws) = trimEnd cs := by
  rw [trimEnd, trimEnd, List.rdropWhile, List.rdropWhile, reverse_append, dropWhile_append,
    dropWhile_eq_nil_iff.mpr (by simpa using h)]
  rfl

/-- A text is what `trimEnd` leaves, and white space behind it. -/
theorem trimEnd_spec (cs : List Char) :
    ∃ ws, cs = trimEnd cs ++ ws ∧ ∀ c ∈ ws, isSpace c = true := by
  refine ⟨cs.rtakeWhile isSpace, (rdropWhile_append_rtakeWhile ..).symm, ?_⟩
  intro c hc
  rw [List.rtakeWhile, mem_reverse] at hc
  exact mem_takeWhile_imp hc

/-- A text that starts with no space and is trimmed loses only its end. -/
theorem exists_trim {c : Char} (cs : List Char) (hc : isSpace c = false) :
    ∃ text spaces, c :: cs = text ++ spaces ∧ trim (String.ofList (c :: cs)) = String.ofList text ∧
      text.head? = some c := by
  obtain ⟨spaces, hspaces, hall⟩ := trimEnd_spec (c :: cs)
  refine ⟨trimEnd (c :: cs), spaces, hspaces, ?_, ?_⟩
  · rw [← String.toList_inj, trim_toList, String.toList_ofList, dropWhile_cons_of_neg (by simp [hc]),
      String.toList_ofList]
  · rcases htext : trimEnd (c :: cs) with _ | ⟨d, ds⟩
    · rw [htext, nil_append] at hspaces
      rw [hall c (hspaces ▸ mem_cons_self)] at hc
      cases hc
    · rw [htext, cons_append, List.cons.injEq] at hspaces
      rw [List.head?_cons, hspaces.1]

/-- `trim` does not see white space at the end. -/
theorem trim_eq_of_trimEnd {s t : String} (h : trimEnd s.toList = trimEnd t.toList) :
    trim s = trim t := by
  have hkey : ∀ cs : List Char,
      trimEnd (cs.dropWhile isSpace) = trimEnd ((trimEnd cs).dropWhile isSpace) := by
    intro cs
    obtain ⟨ws, hcs, hws⟩ := trimEnd_spec cs
    generalize trimEnd cs = x at hcs
    subst hcs
    rw [dropWhile_append]
    split
    · next hnil =>
      rw [List.isEmpty_iff] at hnil
      rw [hnil, dropWhile_eq_nil_iff.mpr hws]
    · exact trimEnd_append_of_space hws
  rw [← String.toList_inj, trim_toList, trim_toList, hkey, h, ← hkey]

end Js
