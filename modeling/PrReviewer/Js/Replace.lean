import Mathlib.Data.List.Infix
import Mathlib.Data.List.Perm.Basic

/-!
# Texts replaced one after the other

* `split f s` cuts `s` at the occurrences of `f`, from left to right; `replaced f m s` is `s.split(f).join(m)`.
* `render m cells` writes a text of which some stretches have become a mark (`none`). Replacing an `f` that shares
  nothing with the mark is replacing it between the marks (`replaced_render`), so a replacement brings no text up
  that was not there (`infix_of_replaced`) and leaves no `f` (`not_infix_replaced`).
* `sweep F s` marks the occurrences of all of `F` in one pass. Where these lie apart (`Apart F s`), replacing the
  members of `F` one after the other is the sweep (`foldl_replaced`), in whatever order.
-/

open List

namespace Js

section Split

variable {β : Type} [DecidableEq β]

/-- The pieces of a text between the occurrences of `f`; the first `n` units belong to an occurrence. -/
def splitFrom (f : List β) : Nat → List β → List (List β)
  | _, [] => [[]]
  | n + 1, _ :: cs => splitFrom f n cs
  | 0, c :: cs =>
    if f <+: c :: cs then [] :: splitFrom f (f.length - 1) cs
    else (splitFrom f 0 cs).modifyHead (c :: ·)

/-- `s.split(f)` for an `f` that is not empty. -/
def split (f s : List β) : List (List β) := splitFrom f 0 s

/-- `s.split(f).join(m)`, the first `n` units belonging to an occurrence. -/
def replacedFrom (f m : List β) (n : Nat) (s : List β) : List β := m.intercalate (splitFrom f n s)

/-- `s.split(f).join(m)`. -/
def replaced (f m s : List β) : List β := m.intercalate (split f s)

variable {f g m : List β}

theorem splitFrom_ne_nil (n : Nat) (s : List β) : splitFrom f n s ≠ [] := by
  induction s generalizing n with
  | nil => simp [splitFrom]
  | cons c cs ih =>
    cases n with
    | succ n => exact ih n
    | zero =>
      rw [splitFrom]
      split
      · simp
      · simpa using ih 0

@[simp] theorem replacedFrom_nil (n : Nat) : replacedFrom f m n [] = [] := by
  cases n <;> simp [replacedFrom, splitFrom]

@[simp] theorem replacedFrom_succ (n : Nat) (c : β) (cs : List β) :
    replacedFrom f m (n + 1) (c :: cs) = replacedFrom f m n cs := rfl

theorem replacedFrom_zero (c : β) (cs : List β) :
    replacedFrom f m 0 (c :: cs) =
      if f <+: c :: cs then m ++ replacedFrom f m (f.length - 1) cs else c :: replacedFrom f m 0 cs := by
  rw [replacedFrom, splitFrom]
  split
  · obtain ⟨piece, rest, h⟩ := exists_cons_of_ne_nil (splitFrom_ne_nil (f := f) (f.length - 1) cs)
    simp [replacedFrom, h]
  · obtain ⟨piece, rest, h⟩ := exists_cons_of_ne_nil (splitFrom_ne_nil (f := f) 0 cs)
    cases rest <;> simp [replacedFrom, h]

theorem replacedFrom_drop (n : Nat) (s : List β) : replacedFrom f m n s = replacedFrom f m 0 (s.drop n) := by
  induction s generalizing n with
  | nil => simp
  | cons c cs ih =>
    cases n with
    | zero => rfl
    | succ n => exact ih n

/-- A text without `f` stays. -/
theorem replaced_of_absent {s : List β} (h : ¬ f <:+: s) : replaced f m s = s := by
  change replacedFrom f m 0 s = s
  induction s with
  | nil => simp
  | cons c cs ih =>
    rw [replacedFrom_zero, if_neg fun hp => h hp.isInfix, ih fun hi => h (hi.trans (suffix_cons c cs).isInfix)]

variable {z : β}

/-- What begins the replaced text began the text, where it does not contain the mark. -/
theorem prefix_of_replacedFrom (hz : z ∉ g) {s : List β} (h : g <+: replacedFrom f [z] 0 s) : g <+: s := by
  induction g generalizing s with
  | nil => exact nil_prefix
  | cons d g ih =>
    cases s with
    | nil => simp at h
    | cons c cs =>
      rw [replacedFrom_zero] at h
      split at h
      · rw [singleton_append, cons_prefix_cons] at h
        exact absurd (h.1 ▸ mem_cons_self) hz
      · rw [cons_prefix_cons] at h ⊢
        exact ⟨h.1, ih (fun hmem => hz (mem_cons_of_mem d hmem)) h.2⟩

/-- A replacement by a mark brings up no text that was not there. -/
theorem infix_of_replacedFrom (hz : z ∉ g) (hg : g ≠ []) {n : Nat} {s : List β}
    (h : g <:+: replacedFrom f [z] n s) : g <:+: s := by
  induction s generalizing n with
  | nil => simpa using h
  | cons c cs ih =>
    cases n with
    | succ n => exact (ih h).trans (suffix_cons c cs).isInfix
    | zero =>
      have hzero := replacedFrom_zero (f := f) (m := [z]) c cs
      split at hzero
      · rw [hzero, singleton_append, infix_cons_iff] at h
        rcases h with h | h
        · obtain ⟨d, g, rfl⟩ := exists_cons_of_ne_nil hg
          rw [cons_prefix_cons] at h
          exact absurd (h.1 ▸ mem_cons_self) hz
        · exact (ih h).trans (suffix_cons c cs).isInfix
      · rcases infix_cons_iff.mp (hzero ▸ h) with hp | hi
        · exact (prefix_of_replacedFrom hz (hzero ▸ hp)).isInfix
        · exact (ih hi).trans (suffix_cons c cs).isInfix

/-- No occurrence of what was replaced is left. -/
theorem not_infix_replacedFrom (hz : z ∉ f) (hf : f ≠ []) {n : Nat} {s : List β} :
    ¬ f <:+: replacedFrom f [z] n s := by
  induction s generalizing n with
  | nil => simpa using hf
  | cons c cs ih =>
    cases n with
    | succ n => exact ih
    | zero =>
      intro h
      have hzero := replacedFrom_zero (f := f) (m := [z]) c cs
      split at hzero
      · rw [hzero, singleton_append, infix_cons_iff] at h
        rcases h with h | h
        · obtain ⟨d, f, rfl⟩ := exists_cons_of_ne_nil hf
          rw [cons_prefix_cons] at h
          exact hz (h.1 ▸ mem_cons_self)
        · exact ih h
      · next hnot =>
        rcases infix_cons_iff.mp (hzero ▸ h) with hp | hi
        · exact hnot (prefix_of_replacedFrom hz (hzero ▸ hp))
        · exact ih hi

end Split

section Cells

variable {α : Type}

/-- What a cell reads as: its unit, or the mark. -/
def renderCell (m : List α) : Option α → List α
  | some c => [c]
  | none => m

/-- The text of cells, with `m` for each mark. -/
def render (m : List α) (cells : List (Option α)) : List α := cells.flatMap (renderCell m)

variable {f g m : List α} {cells : List (Option α)}

@[simp] theorem render_nil : render m [] = [] := rfl

@[simp] theorem render_some (c : α) : render m (some c :: cells) = c :: render m cells := rfl

@[simp] theorem render_none : render m (none :: cells) = m ++ render m cells := rfl

@[simp] theorem render_append (cells' : List (Option α)) :
    render m (cells ++ cells') = render m cells ++ render m cells' := flatMap_append

@[simp] theorem render_map_some (s : List α) : render m (s.map some) = s := by
  induction s with
  | nil => rfl
  | cons c cs ih => rw [map_cons, render_some, ih]

/-- A text without a unit of the mark begins the rendered text where its cells begin the cells. -/
theorem prefix_render (hm : m ≠ []) (h : ∀ c ∈ g, c ∉ m) : g <+: render m cells ↔ g.map some <+: cells := by
  induction g generalizing cells with
  | nil => simp
  | cons d g ih =>
    cases cells with
    | nil => simp
    | cons cell cells =>
      cases cell with
      | some c =>
        rw [render_some, map_cons, cons_prefix_cons, cons_prefix_cons, Option.some.injEq,
          ih fun c hc => h c (mem_cons_of_mem d hc)]
      | none =>
        obtain ⟨x, m', rfl⟩ := exists_cons_of_ne_nil hm
        have hd : d ≠ x := fun hdx => h d mem_cons_self (hdx ▸ mem_cons_self)
        simp [cons_prefix_cons, hd]

theorem not_prefix_mark {x : α} {rest : List α} (hg : g ≠ []) (h : ∀ c ∈ g, c ≠ x) : ¬ g <+: x :: rest := by
  obtain ⟨d, g, rfl⟩ := exists_cons_of_ne_nil hg
  rw [cons_prefix_cons]
  exact fun hp => h d mem_cons_self hp.1

theorem infix_of_infix_append (hg : g ≠ []) {rest : List α} (h : ∀ c ∈ g, c ∉ m) (hi : g <:+: m ++ rest) :
    g <:+: rest := by
  induction m with
  | nil => exact hi
  | cons x m ih =>
    rcases infix_cons_iff.mp hi with hp | hi
    · exact absurd hp (not_prefix_mark hg fun c hc hcx => h c hc (hcx ▸ mem_cons_self))
    · exact ih (fun c hc hmem => h c hc (mem_cons_of_mem x hmem)) hi

theorem infix_of_infix_render (hm : m ≠ []) (hg : g ≠ []) (h : ∀ c ∈ g, c ∉ m) (hi : g <:+: render m cells) :
    g.map some <:+: cells := by
  induction cells with
  | nil => exact absurd (by simpa using hi) hg
  | cons cell cells ih =>
    have hrest {rest : List α} (hrest : rest = render m cells) (hi : g <:+: rest) :
        g.map some <:+: cell :: cells := by
      subst hrest
      exact (ih hi).trans (suffix_cons cell cells).isInfix
    cases cell with
    | none => exact hrest rfl (infix_of_infix_append hg h hi)
    | some c =>
      rw [render_some] at hi
      rcases infix_cons_iff.mp hi with hp | hi
      · rw [← render_some] at hp
        have hcells : g.map some <+: some c :: cells := (prefix_render hm h).mp hp
        exact hcells.isInfix
      · exact hrest rfl hi

theorem render_drop (h : g.map some <+: cells) :
    (render m cells).drop g.length = render m (cells.drop g.length) := by
  obtain ⟨rest, rfl⟩ := h
  rw [render_append, render_map_some, drop_left, drop_left' (length_map some)]

variable [DecidableEq α]

theorem replacedFrom_mark_append (hf : f ≠ []) {rest : List α} {m' : List α} (h : ∀ c ∈ f, c ∉ m') :
    replacedFrom f m 0 (m' ++ rest) = m' ++ replacedFrom f m 0 rest := by
  induction m' with
  | nil => rfl
  | cons x m' ih =>
    rw [cons_append, replacedFrom_zero,
      if_neg (not_prefix_mark hf fun c hc hcx => h c hc (hcx ▸ mem_cons_self)),
      ih fun c hc hmem => h c hc (mem_cons_of_mem x hmem), cons_append]

/-- Replacing a text that shares nothing with the mark is replacing its cells. -/
theorem replaced_render (hm : m ≠ []) (hf : f ≠ []) (h : ∀ c ∈ f, c ∉ m) :
    replaced f m (render m cells) = render m (replaced (f.map some) [none] cells) := by
  change replacedFrom f m 0 (render m cells) = render m (replacedFrom (f.map some) [none] 0 cells)
  induction hlength : cells.length using Nat.strong_induction_on generalizing cells with
  | _ length ih =>
    subst hlength
    cases cells with
    | nil => simp
    | cons cell cells =>
      cases cell with
      | none =>
        have hnot : ¬ f.map some <+: none :: cells :=
          not_prefix_mark (by simpa using hf) (by simp)
        rw [render_none, replacedFrom_mark_append hf h, ih cells.length (by simp) rfl, replacedFrom_zero, if_neg hnot,
          render_none]
      | some c =>
        rw [render_some, replacedFrom_zero, replacedFrom_zero]
        have hfront : f <+: c :: render m cells ↔ f.map some <+: some c :: cells := by
          rw [← render_some]
          exact prefix_render hm h
        by_cases hp : f.map some <+: some c :: cells
        · obtain ⟨d, f, rfl⟩ := exists_cons_of_ne_nil hf
          have hdrop : (render m cells).drop f.length = render m (cells.drop f.length) :=
            render_drop (cons_prefix_cons.mp hp).2
          rw [if_pos hp, if_pos (hfront.mpr hp), length_map, length_cons, Nat.add_sub_cancel,
            replacedFrom_drop f.length (render m cells), replacedFrom_drop f.length cells, hdrop,
            ih (cells.drop f.length).length (by simp only [length_drop, length_cons]; omega) rfl, singleton_append, render_none]
        · rw [if_neg hp, if_neg (mt hfront.mp hp), ih cells.length (by simp) rfl, render_some]

end Cells

section Sweep

variable {α : Type}

/-- Where two members of `F` occur in `s`, they are one occurrence or do not meet. -/
def Apart (F : List (List α)) (s : List α) : Prop :=
  ∀ i j, ∀ f ∈ F, ∀ g ∈ F, f <+: s.drop i → g <+: s.drop j → i ≤ j → j < i + f.length → i = j ∧ f = g

variable {F G : List (List α)} {f g s : List α}

theorem Apart.mono (h : Apart F s) (hsub : ∀ g ∈ G, g ∈ F) : Apart G s :=
  fun i j f hf g hg => h i j f (hsub f hf) g (hsub g hg)

/-- Occurrences that lie apart in a text lie apart in its parts. -/
theorem Apart.part {t : List α} (h : Apart F s) (ht : t <:+: s) : Apart F t := by
  obtain ⟨before, after, rfl⟩ := ht
  intro i j f hf g hg hi hj hle hlt
  have hmove {k : Nat} {w : List α} (hk : w <+: t.drop k) : w <+: (before ++ t ++ after).drop (before.length + k) := by
    by_cases hw : w = []
    · exact hw ▸ nil_prefix
    · have hlength := hk.length_le
      have := length_pos_iff.mpr hw
      rw [length_drop] at hlength
      rw [append_assoc, drop_append, drop_eq_nil_of_le (by omega), nil_append,
        Nat.add_sub_cancel_left, drop_append_of_le_length (by omega)]
      exact hk.trans (prefix_append _ after)
  obtain ⟨heq, hfg⟩ := h (before.length + i) (before.length + j) f hf g hg (hmove hi) (hmove hj) (by omega) (by omega)
  exact ⟨by omega, hfg⟩

theorem Apart.drop (h : Apart F s) (n : Nat) : Apart F (s.drop n) := h.part (drop_suffix n s).isInfix

theorem Apart.eq_of_prefix (h : Apart F s) (hF : ∀ f ∈ F, f ≠ []) (hf : f ∈ F) (hg : g ∈ F) (hfs : f <+: s)
    (hgs : g <+: s) : f = g :=
  (h 0 0 f hf g hg hfs hgs le_rfl (by have := length_pos_iff.mpr (hF f hf); omega)).2

variable [DecidableEq α]

/-- Marks the occurrences of members of `F`; the first `n` units belong to one. -/
def sweepFrom (F : List (List α)) : Nat → List α → List (Option α)
  | _, [] => []
  | n + 1, _ :: cs => sweepFrom F n cs
  | 0, c :: cs =>
    match F.find? (· <+: c :: cs) with
    | some f => none :: sweepFrom F (f.length - 1) cs
    | none => some c :: sweepFrom F 0 cs

/-- Marks the occurrences of members of `F`, from left to right in one pass. -/
def sweep (F : List (List α)) (s : List α) : List (Option α) := sweepFrom F 0 s

theorem sweepFrom_drop (n : Nat) (s : List α) : sweepFrom F n s = sweepFrom F 0 (s.drop n) := by
  induction s generalizing n with
  | nil => simp [sweepFrom]
  | cons c cs ih =>
    cases n with
    | zero => rfl
    | succ n => exact ih n

variable {c : α} {cs : List α}

theorem sweepFrom_of_find (h : F.find? (· <+: c :: cs) = some f) :
    sweepFrom F 0 (c :: cs) = none :: sweepFrom F (f.length - 1) cs := by
  rw [sweepFrom]
  simp only [h]

theorem sweepFrom_of_none (h : F.find? (· <+: c :: cs) = none) :
    sweepFrom F 0 (c :: cs) = some c :: sweepFrom F 0 cs := by
  rw [sweepFrom]
  simp only [h]

@[simp] theorem sweep_nil_forms (s : List α) : sweep [] s = s.map some := by
  change sweepFrom [] 0 s = s.map some
  induction s with
  | nil => rfl
  | cons c cs ih => rw [sweepFrom_of_none rfl, ih, map_cons]

/-- What is kept at the front of a sweep is the front of the text. -/
theorem prefix_of_sweep (h : g.map some <+: sweepFrom F 0 s) : g <+: s := by
  induction g generalizing s with
  | nil => exact nil_prefix
  | cons d g ih =>
    cases s with
    | nil => simp [sweepFrom] at h
    | cons c cs =>
      cases hfind : F.find? (· <+: c :: cs) with
      | some f => simp [sweepFrom_of_find hfind, cons_prefix_cons] at h
      | none =>
        rw [sweepFrom_of_none hfind, map_cons, cons_prefix_cons, Option.some.injEq] at h
        exact cons_prefix_cons.mpr ⟨h.1, ih h.2⟩

/-- A stretch in which no member of `F` begins is kept. -/
theorem sweepFrom_keep (hgs : g <+: s) (h : ∀ i < g.length, ∀ f ∈ F, ¬ f <+: s.drop i) :
    sweepFrom F 0 s = g.map some ++ sweepFrom F 0 (s.drop g.length) := by
  induction g generalizing s with
  | nil => rfl
  | cons d g ih =>
    obtain ⟨rest, rfl⟩ := hgs
    have hfind : F.find? (· <+: d :: (g ++ rest)) = none := by
      simpa using h 0 (by simp)
    have hrest := ih (prefix_append g rest) fun i hi f hf => h (i + 1) (by simpa using hi) f hf
    rw [cons_append, sweepFrom_of_none hfind, hrest]
    simp

/-- Replacing one more text whose occurrences lie apart from the marked ones is sweeping with it as well. -/
theorem replacedFrom_sweepFrom (hg : g ≠ []) (hs : Apart (F ++ [g]) s) (n : Nat) :
    replacedFrom (g.map some) [none] 0 (sweepFrom F n s) = sweepFrom (F ++ [g]) n s := by
  induction s generalizing n with
  | nil => simp [sweepFrom]
  | cons c cs ih =>
    have hcs : Apart (F ++ [g]) cs := hs.drop 1
    cases n with
    | succ n => exact ih hcs n
    | zero =>
      cases hfind : F.find? (· <+: c :: cs) with
      | some f =>
        have hnot : ¬ g.map some <+: none :: sweepFrom F (f.length - 1) cs :=
          not_prefix_mark (by simpa using hg) (by simp)
        have hfind' : (F ++ [g]).find? (· <+: c :: cs) = some f := by rw [List.find?_append, hfind, Option.some_or]
        rw [sweepFrom_of_find hfind, sweepFrom_of_find hfind', replacedFrom_zero, if_neg hnot, ih hcs]
      | none =>
        rw [sweepFrom_of_none hfind, replacedFrom_zero]
        by_cases hp : g <+: c :: cs
        · have hfind' : (F ++ [g]).find? (· <+: c :: cs) = some g := by
            rw [List.find?_append, hfind, Option.none_or]
            simp [hp]
          have hkeep : sweepFrom F 0 (c :: cs) = g.map some ++ sweepFrom F 0 ((c :: cs).drop g.length) := by
            refine sweepFrom_keep hp fun i hi f hf hfi => ?_
            obtain ⟨rfl, rfl⟩ := hs 0 i g (by simp) f (by simp [hf]) hp hfi (Nat.zero_le i) (by omega)
            simp only [List.find?_eq_none, decide_eq_true_eq] at hfind
            exact hfind g hf hp
          rw [sweepFrom_of_none hfind] at hkeep
          have hpre : g.map some <+: some c :: sweepFrom F 0 cs := hkeep ▸ prefix_append _ _
          obtain ⟨d, g, rfl⟩ := exists_cons_of_ne_nil hg
          rw [map_cons, cons_append, List.cons.injEq, length_cons, drop_succ_cons] at hkeep
          rw [if_pos hpre, sweepFrom_of_find hfind', length_map, length_cons, Nat.add_sub_cancel,
            replacedFrom_drop, hkeep.2, drop_left' (length_map some), ← sweepFrom_drop, ih hcs,
            singleton_append]
        · have hfind' : (F ++ [g]).find? (· <+: c :: cs) = none := by
            rw [List.find?_append, hfind, Option.none_or]
            simp [hp]
          have hnot : ¬ g.map some <+: some c :: sweepFrom F 0 cs :=
            fun h => hp (prefix_of_sweep (sweepFrom_of_none hfind ▸ h))
          rw [if_neg hnot, sweepFrom_of_none hfind', ih hcs]

/-- Replacing texts one after the other, where their occurrences lie apart, is one sweep. -/
theorem foldl_replaced (hF : ∀ f ∈ F ++ G, f ≠ []) (hs : Apart (F ++ G) s) :
    G.foldl (fun cells g => replaced (g.map some) [none] cells) (sweep F s) = sweep (F ++ G) s := by
  induction G generalizing F with
  | nil => rw [append_nil, foldl_nil]
  | cons g G ih =>
    have happend : F ++ g :: G = F ++ [g] ++ G := by simp
    have hstep : replaced (g.map some) [none] (sweep F s) = sweep (F ++ [g]) s :=
      replacedFrom_sweepFrom (hF g (by simp))
        (hs.mono fun f hf => by rw [happend]; exact mem_append_left G hf) 0
    rw [foldl_cons, hstep, ih (happend ▸ hF) (happend ▸ hs), happend]

theorem find?_congr (hF : ∀ f ∈ F, f ≠ []) (hs : Apart F s) (hmem : ∀ f, f ∈ G ↔ f ∈ F) :
    G.find? (· <+: s) = F.find? (· <+: s) := by
  cases hfind : F.find? (· <+: s) with
  | none =>
    simp only [List.find?_eq_none, decide_eq_true_eq] at hfind ⊢
    exact fun f hf => hfind f ((hmem f).mp hf)
  | some f =>
    have hf := List.mem_of_find?_eq_some hfind
    have hfs : f <+: s := by simpa using List.find?_some hfind
    cases hfind' : G.find? (· <+: s) with
    | none =>
      simp only [List.find?_eq_none, decide_eq_true_eq] at hfind'
      exact absurd hfs (hfind' f ((hmem f).mpr hf))
    | some g =>
      have hgs : g <+: s := by simpa using List.find?_some hfind'
      exact congrArg some (hs.eq_of_prefix hF ((hmem g).mp (List.mem_of_find?_eq_some hfind')) hf hgs hfs)

/-- A sweep depends on which texts are swept only. -/
theorem sweepFrom_congr (hF : ∀ f ∈ F, f ≠ []) (hs : Apart F s) (hmem : ∀ f, f ∈ G ↔ f ∈ F) (n : Nat) :
    sweepFrom G n s = sweepFrom F n s := by
  induction s generalizing n with
  | nil => simp [sweepFrom]
  | cons c cs ih =>
    cases n with
    | succ n => exact ih (hs.drop 1) n
    | zero =>
      have hfind := find?_congr hF hs hmem
      cases hfind' : F.find? (· <+: c :: cs) with
      | none => rw [sweepFrom_of_none hfind', sweepFrom_of_none (hfind.trans hfind'), ih (hs.drop 1)]
      | some f => rw [sweepFrom_of_find hfind', sweepFrom_of_find (hfind.trans hfind'), ih (hs.drop 1)]

end Sweep

section Wiped

variable {α : Type}

/-- `out` is `s` without the units at the positions `P`; marks `m` may stand for these. -/
inductive Wiped (m : List α) : (Nat → Prop) → List α → List α → Prop
  | nil {P} : Wiped m P [] []
  | keep {P c cs out} : ¬ P 0 → Wiped m (fun k => P (k + 1)) cs out → Wiped m P (c :: cs) (c :: out)
  | drop {P c cs out} : P 0 → Wiped m (fun k => P (k + 1)) cs out → Wiped m P (c :: cs) out
  | mark {P c cs out} : P 0 → Wiped m (fun k => P (k + 1)) cs out → Wiped m P (c :: cs) (m ++ out)

/-- The position `k` of `s` belongs to an occurrence of a member of `F`. -/
def Covered (F : List (List α)) (s : List α) (k : Nat) : Prop :=
  ∃ f ∈ F, ∃ i ≤ k, k < i + f.length ∧ f <+: s.drop i

variable {F : List (List α)} {m s : List α}

variable [DecidableEq α]

/-- A sweep removes exactly what belongs to an occurrence, where the occurrences lie apart. -/
theorem wiped_sweepFrom (hF : ∀ f ∈ F, f ≠ []) (hs : Apart F s) {n : Nat} {P : Nat → Prop} (hskip : ∀ k < n, P k)
    (hP : ∀ k, n ≤ k → (P k ↔ ∃ f ∈ F, ∃ i, n ≤ i ∧ i ≤ k ∧ k < i + f.length ∧ f <+: s.drop i)) :
    Wiped m P s (render m (sweepFrom F n s)) := by
  induction s generalizing n P with
  | nil => rw [sweepFrom]; exact .nil
  | cons c cs ih =>
    have hcs : Apart F cs := hs.drop 1
    have htail {n' : Nat} (hle : n ≤ n' + 1)
        (hbefore : ∀ i, n ≤ i → i < n' + 1 → ∀ f ∈ F, f <+: (c :: cs).drop i → i + f.length ≤ n' + 1)
        (k : Nat) (hk : n' ≤ k) :
        P (k + 1) ↔ ∃ f ∈ F, ∃ i, n' ≤ i ∧ i ≤ k ∧ k < i + f.length ∧ f <+: cs.drop i := by
      rw [hP (k + 1) (by omega)]
      constructor
      · rintro ⟨f, hf, i, hni, hik, hki, hfi⟩
        rcases Nat.lt_or_ge i (n' + 1) with hi | hi
        · have := hbefore i hni hi f hf hfi
          omega
        · obtain ⟨i, rfl⟩ := Nat.exists_eq_add_of_le' (show 1 ≤ i by omega)
          exact ⟨f, hf, i, by omega, by omega, by omega, hfi⟩
      · rintro ⟨f, hf, i, hni, hik, hki, hfi⟩
        exact ⟨f, hf, i + 1, by omega, by omega, by omega, hfi⟩
    cases n with
    | succ n =>
      refine .drop (hskip 0 (by omega)) (ih hcs (fun k hk => hskip (k + 1) (by omega)) (htail le_rfl ?_))
      intro i hi hlt
      omega
    | zero =>
      cases hfind : F.find? (· <+: c :: cs) with
      | none =>
        simp only [List.find?_eq_none, decide_eq_true_eq] at hfind
        have hnot : ¬ P 0 := by
          rw [hP 0 le_rfl]
          rintro ⟨f, hf, i, -, hi, -, hfi⟩
          obtain rfl := Nat.le_zero.mp hi
          exact hfind f hf hfi
        rw [sweepFrom_of_none (by simpa using hfind), render_some]
        refine .keep hnot (ih hcs (by simp) (htail (Nat.zero_le 1) fun i _ hlt f hf hfi => ?_))
        obtain rfl : i = 0 := by omega
        exact absurd hfi (hfind f hf)
      | some f =>
        have hf := List.mem_of_find?_eq_some hfind
        have hfs : f <+: c :: cs := by simpa using List.find?_some hfind
        have hlength := length_pos_iff.mpr (hF f hf)
        have hall (k : Nat) (hk : k < f.length) : P k :=
          (hP k (Nat.zero_le k)).mpr ⟨f, hf, 0, le_rfl, Nat.zero_le k, by omega, hfs⟩
        rw [sweepFrom_of_find hfind, render_none]
        refine .mark (hall 0 hlength) (ih hcs (fun k hk => hall (k + 1) (by omega))
          (htail (by omega) fun i _ hlt g hg hgi => ?_))
        obtain ⟨rfl, rfl⟩ := hs 0 i f hf g hg hfs hgi (Nat.zero_le i) (by omega)
        omega

theorem wiped_sweep (hF : ∀ f ∈ F, f ≠ []) (hs : Apart F s) : Wiped m (Covered F s) s (render m (sweep F s)) :=
  wiped_sweepFrom hF hs (by simp) fun k _ => by simp [Covered]

omit [DecidableEq α] in
/-- Where every position is removed, the marks are all that is left. -/
theorem Wiped.subset_mark {P : Nat → Prop} {out : List α} (h : Wiped m P s out) (hP : ∀ k < s.length, P k) :
    out ⊆ m := by
  induction h with
  | nil => simp
  | keep h0 => exact absurd (hP 0 (by simp)) h0
  | drop _ _ ih => exact ih fun k hk => hP (k + 1) (by simpa using hk)
  | mark _ _ ih => exact append_subset.mpr ⟨List.Subset.refl m, ih fun k hk => hP (k + 1) (by simpa using hk)⟩

end Wiped

section Marked

variable {α : Type}

/-- `cells` is `s` with occurrences of members of `F` marked. -/
inductive Marked (F : List (List α)) : List α → List (Option α) → Prop
  | nil : Marked F [] []
  | keep (c : α) {s cells} : Marked F s cells → Marked F (c :: s) (some c :: cells)
  | mark {f s cells} : f ∈ F → Marked F s cells → Marked F (f ++ s) (none :: cells)

variable {F : List (List α)} {f g s : List α} {cells : List (Option α)}

theorem marked_map_some (s : List α) : Marked F s (s.map some) := by
  induction s with
  | nil => exact .nil
  | cons c s ih => exact .keep c ih

theorem Marked.of_append (h : Marked F s (g.map some ++ cells)) : ∃ rest, s = g ++ rest ∧ Marked F rest cells := by
  induction g generalizing s with
  | nil => exact ⟨s, rfl, h⟩
  | cons c g ih =>
    cases h with
    | keep _ h =>
      obtain ⟨rest, rfl, hrest⟩ := ih h
      exact ⟨rest, rfl, hrest⟩

/-- A text of which nothing is kept is a row of marked texts. -/
theorem Marked.flatten_eq (h : Marked F s cells) (hcells : ∀ c ∈ cells, c = none) :
    ∃ ts : List (List α), ts.length = cells.length ∧ (∀ t ∈ ts, t ∈ F) ∧ ts.flatten = s := by
  induction h with
  | nil => exact ⟨[], rfl, by simp, rfl⟩
  | keep c => exact absurd (hcells (some c) mem_cons_self) (by simp)
  | @mark f s cells hf _ ih =>
    obtain ⟨ts, hlength, hts, hflat⟩ := ih fun c hc => hcells c (mem_cons_of_mem none hc)
    exact ⟨f :: ts, by simp [hlength], by simpa [hf] using hts, by simp [hflat]⟩

theorem Marked.mem_of_some {c : α} (h : Marked F s cells) (hc : some c ∈ cells) : c ∈ s := by
  induction h with
  | nil => simp at hc
  | keep d _ ih =>
    rcases mem_cons.mp hc with h | h
    · exact mem_cons.mpr (.inl (Option.some.inj h))
    · exact mem_cons_of_mem d (ih h)
  | mark _ _ ih => exact mem_append_right _ (ih (by simpa using hc))

variable [DecidableEq α]

theorem Marked.replacedFrom (hf : f ∈ F) (hne : f ≠ []) (h : Marked F s cells) :
    Marked F s (replacedFrom (f.map some) [none] 0 cells) := by
  induction hlength : cells.length using Nat.strong_induction_on generalizing s cells with
  | _ length ih =>
    subst hlength
    cases cells with
    | nil => simpa using h
    | cons cell cells =>
      by_cases hp : f.map some <+: cell :: cells
      · obtain ⟨rest, hrest⟩ := hp
        obtain ⟨s', rfl, hs'⟩ := (hrest ▸ h : Marked F s (f.map some ++ rest)).of_append
        obtain ⟨d, f, rfl⟩ := exists_cons_of_ne_nil hne
        rw [map_cons, cons_append, List.cons.injEq] at hrest
        obtain ⟨rfl, rfl⟩ := hrest
        rw [replacedFrom_zero, if_pos ⟨rest, by simp⟩, replacedFrom_drop]
        have hdrop : (f.map some ++ rest).drop (((d :: f).map some).length - 1) = rest := by simp
        rw [hdrop]
        exact .mark hf (ih rest.length (by simp only [length_append, length_cons]; omega) hs' rfl)
      · rw [replacedFrom_zero, if_neg hp]
        cases h with
        | keep c h => exact .keep c (ih cells.length (by simp) h rfl)
        | mark hg h => exact .mark hg (ih cells.length (by simp) h rfl)

end Marked

end Js
