import Mathlib.Data.List.Induction
import Mathlib.Data.List.Sort
import PrReviewer.Js.Map

/-!
# Logs that are merged and read latest-first

- `latest key value as`: what the last element with a value says under its key (`get?_latest`).
- `distinctBy key as`: of the elements with one key, the first. It keeps a list of distinct keys
  (`distinctBy_of_nodup`), and parts with different keys apart (`distinctBy_append`).
-/

open List

namespace Js

variable {α κ ν : Type}

/-! ## The latest value under a key -/

section

variable [DecidableEq κ]

/-- `for (const a of as) if (value(a) !== undefined) map.set(key(a), value(a))`. -/
def latest (key : α → κ) (value : α → Option ν) (as : List α) : Map κ ν :=
  as.foldl (fun m a => (value a).elim m (m.set (key a))) .empty

/-- What the elements say under a key, in their order. -/
def saidOf (key : α → κ) (value : α → Option ν) (as : List α) (k : κ) : List ν :=
  (as.filter fun a => key a = k).filterMap value

variable {key : α → κ} {value : α → Option ν} {as bs : List α} {k : κ}

theorem latest_append_singleton (as : List α) (a : α) : latest key value (as ++ [a]) =
    (value a).elim (latest key value as) ((latest key value as).set (key a)) := by
  rw [latest, foldl_append]
  rfl

theorem saidOf_append : saidOf key value (as ++ bs) k = saidOf key value as k ++ saidOf key value bs k := by
  rw [saidOf, filter_append, filterMap_append]
  rfl

theorem get?_latest (as : List α) (k : κ) :
    (latest key value as).get? k = (saidOf key value as k).getLast? := by
  induction as using List.reverseRecOn with
  | nil => rfl
  | append_singleton as a ih =>
    rw [latest_append_singleton, saidOf_append]
    cases hv : value a with
    | none =>
      have hnone : saidOf key value [a] k = [] := by
        by_cases ha : key a = k <;> simp [saidOf, ha, hv]
      rw [hnone, append_nil, Option.elim_none, ih]
    | some v =>
      rw [Option.elim_some, Map.get?_set]
      by_cases ha : key a = k
      · have hone : saidOf key value [a] k = [v] := by simp [saidOf, ha, hv]
        rw [hone, if_pos ha.symm, List.getLast?_concat]
      · have hnone : saidOf key value [a] k = [] := by simp [saidOf, ha]
        rw [hnone, append_nil, if_neg (Ne.symm ha), ih]

/-- Elements that say nothing may be left out. -/
theorem latest_filter {p : α → Bool} (h : ∀ a ∈ as, p a = false → value a = none) :
    latest key value (as.filter p) = latest key value as := by
  induction as using List.reverseRecOn with
  | nil => rfl
  | append_singleton as a ih =>
    have ih := ih fun b hb => h b (mem_append_left _ hb)
    rw [latest_append_singleton, filter_append]
    cases hp : p a with
    | true =>
      rw [filter_singleton, hp, cond_true, latest_append_singleton, ih]
    | false =>
      rw [filter_singleton, hp, cond_false, append_nil, ih, h a (by simp) hp]
      rfl

end

/-! ## The first of each key -/

section

variable [DecidableEq κ]

/-- The elements whose key is not among the `seen` ones and not one of an element before. -/
def distinctFrom (key : α → κ) : List κ → List α → List α
  | _, [] => []
  | seen, a :: as =>
    if key a ∈ seen then distinctFrom key seen as else a :: distinctFrom key (key a :: seen) as

/-- The first element of each key. -/
def distinctBy (key : α → κ) (as : List α) : List α := distinctFrom key [] as

variable {key : α → κ} {as bs : List α} {seen seen' : List κ}

theorem distinctFrom_congr (h : ∀ k, k ∈ seen ↔ k ∈ seen') :
    distinctFrom key seen as = distinctFrom key seen' as := by
  induction as generalizing seen seen' with
  | nil => rfl
  | cons a as ih =>
    have hcons : ∀ k, k ∈ key a :: seen ↔ k ∈ key a :: seen' := fun k => by
      rw [mem_cons, mem_cons, h]
    simp only [distinctFrom, h (key a)]
    rw [ih h, ih hcons]

theorem distinctFrom_append (seen : List κ) (as bs : List α) :
    distinctFrom key seen (as ++ bs) =
      distinctFrom key seen as ++ distinctFrom key (as.map key ++ seen) bs := by
  induction as generalizing seen with
  | nil => rfl
  | cons a as ih =>
    simp only [cons_append, distinctFrom, map_cons]
    split
    · next ha =>
      rw [ih]
      congr 1
      apply distinctFrom_congr
      intro k
      simp only [mem_append, mem_cons]
      constructor
      · exact Or.inr
      · rintro (rfl | hk)
        · exact .inr ha
        · exact hk
    · rw [ih, cons_append]
      congr 2
      apply distinctFrom_congr
      intro k
      simp only [mem_append, mem_cons]
      constructor
      · rintro (hk | rfl | hk)
        · exact .inr (.inl hk)
        · exact .inl rfl
        · exact .inr (.inr hk)
      · rintro (rfl | hk | hk)
        · exact .inr (.inl rfl)
        · exact .inl hk
        · exact .inr (.inr hk)

theorem distinctFrom_of_nodup (hn : (as.map key).Nodup) (h : ∀ a ∈ as, key a ∉ seen) :
    distinctFrom key seen as = as := by
  induction as generalizing seen with
  | nil => rfl
  | cons a as ih =>
    rw [map_cons, nodup_cons] at hn
    rw [distinctFrom, if_neg (h a mem_cons_self), ih hn.2]
    intro b hb hseen
    rcases mem_cons.mp hseen with heq | hseen
    · exact hn.1 (heq ▸ mem_map_of_mem hb)
    · exact h b (mem_cons_of_mem _ hb) hseen

theorem distinctBy_of_nodup (hn : (as.map key).Nodup) : distinctBy key as = as :=
  distinctFrom_of_nodup hn nofun

theorem distinctFrom_eq_nil (h : ∀ a ∈ as, key a ∈ seen) : distinctFrom key seen as = [] := by
  induction as with
  | nil => rfl
  | cons a as ih =>
    rw [distinctFrom, if_pos (h a mem_cons_self)]
    exact ih fun b hb => h b (mem_cons_of_mem _ hb)

/-- Seen keys that no element has change nothing. -/
theorem distinctFrom_append_seen (h : ∀ a ∈ as, key a ∉ seen') :
    distinctFrom key (seen ++ seen') as = distinctFrom key seen as := by
  induction as generalizing seen with
  | nil => rfl
  | cons a as ih =>
    have ha := h a mem_cons_self
    have hmem : key a ∈ seen ++ seen' ↔ key a ∈ seen := by simp [ha]
    have ih' {seen : List κ} : distinctFrom key (seen ++ seen') as = distinctFrom key seen as :=
      ih fun b hb => h b (mem_cons_of_mem _ hb)
    simp only [distinctFrom, hmem, ih']
    rw [← cons_append, ih']

/-- Parts without a common key are kept apart. -/
theorem distinctBy_append (h : ∀ b ∈ bs, key b ∉ as.map key) :
    distinctBy key (as ++ bs) = distinctBy key as ++ distinctBy key bs := by
  rw [distinctBy, distinctFrom_append, append_nil]
  congr 1
  change distinctFrom key ([] ++ _) bs = _
  exact distinctFrom_append_seen h

theorem distinctFrom_sublist : (distinctFrom key seen as).Sublist as := by
  induction as generalizing seen with
  | nil => exact .slnil
  | cons a as ih =>
    rw [distinctFrom]
    split
    · exact ih.cons _
    · exact ih.cons_cons _

theorem distinctBy_sublist : (distinctBy key as).Sublist as := distinctFrom_sublist

theorem mem_keys_distinctFrom {k : κ} :
    k ∈ (distinctFrom key seen as).map key ↔ k ∈ as.map key ∧ k ∉ seen := by
  induction as generalizing seen with
  | nil => simp [distinctFrom]
  | cons a as ih =>
    rw [distinctFrom]
    split
    · next ha =>
      rw [ih, map_cons, mem_cons]
      constructor
      · exact fun ⟨hk, hs⟩ => ⟨.inr hk, hs⟩
      · rintro ⟨rfl | hk, hs⟩
        · exact absurd ha hs
        · exact ⟨hk, hs⟩
    · next ha =>
      rw [map_cons, mem_cons, ih, map_cons, mem_cons, mem_cons, not_or]
      constructor
      · rintro (rfl | ⟨hk, -, hs⟩)
        · exact ⟨.inl rfl, ha⟩
        · exact ⟨.inr hk, hs⟩
      · rintro ⟨rfl | hk, hs⟩
        · exact .inl rfl
        · by_cases hka : k = key a
          · exact .inl hka
          · exact .inr ⟨hk, hka, hs⟩

theorem nodup_distinctFrom : ((distinctFrom key seen as).map key).Nodup := by
  induction as generalizing seen with
  | nil => exact nodup_nil
  | cons a as ih =>
    rw [distinctFrom]
    split
    · exact ih
    · rw [map_cons, nodup_cons]
      refine ⟨fun hmem => ?_, ih⟩
      exact (mem_keys_distinctFrom.mp hmem).2 mem_cons_self

theorem mem_keys_distinctBy {k : κ} : k ∈ (distinctBy key as).map key ↔ k ∈ as.map key := by
  rw [distinctBy, mem_keys_distinctFrom]
  simp

theorem nodup_distinctBy : ((distinctBy key as).map key).Nodup := nodup_distinctFrom

theorem distinctFrom_map {β : Type} {f : β → α} {bs : List β} :
    distinctFrom key seen (bs.map f) = (distinctFrom (key ∘ f) seen bs).map f := by
  induction bs generalizing seen with
  | nil => rfl
  | cons b bs ih =>
    simp only [map_cons, distinctFrom, Function.comp_apply]
    split
    · exact ih
    · rw [map_cons, ih]

theorem distinctFrom_comp {κ' : Type} [DecidableEq κ'] {f : κ → κ'} (hf : f.Injective) :
    distinctFrom (f ∘ key) (seen.map f) as = distinctFrom key seen as := by
  induction as generalizing seen with
  | nil => rfl
  | cons a as ih =>
    have hmem : f (key a) ∈ seen.map f ↔ key a ∈ seen := mem_map_of_injective hf
    simp only [distinctFrom, Function.comp_apply, hmem]
    rw [ih]
    have ih' := @ih (key a :: seen)
    rw [map_cons] at ih'
    rw [ih']

/-- Elements that are told apart by their key are themselves the keys. -/
theorem distinctBy_map_of_injective {β : Type} [DecidableEq β] {f : β → α}
    (hf : (key ∘ f).Injective) {bs : List β} :
    distinctBy key (bs.map f) = (distinctBy id bs).map f := by
  rw [distinctBy, distinctFrom_map, distinctBy]
  congr 1
  change distinctFrom ((key ∘ f) ∘ id) (([] : List β).map (key ∘ f)) bs = distinctFrom id [] bs
  exact distinctFrom_comp hf

/-- Elements whose keys have their own kind may be filtered before or after. -/
theorem filter_distinctFrom {p : α → Bool} (hp : ∀ a ∈ as, ∀ b ∈ as, key a = key b → p a = p b)
    (hseen : ∀ a ∈ as, p a = true → key a ∈ seen → key a ∈ seen')
    (hseen' : ∀ a ∈ as, p a = true → key a ∈ seen' → key a ∈ seen) :
    (distinctFrom key seen as).filter p = distinctFrom key seen' (as.filter p) := by
  induction as generalizing seen seen' with
  | nil => rfl
  | cons a as ih =>
    have hp' : ∀ b ∈ as, ∀ c ∈ as, key b = key c → p b = p c := fun b hb c hc =>
      hp b (mem_cons_of_mem _ hb) c (mem_cons_of_mem _ hc)
    have hs := fun b hb => hseen b (mem_cons_of_mem _ hb)
    have hs' := fun b hb => hseen' b (mem_cons_of_mem _ hb)
    rw [distinctFrom]
    cases hpa : p a with
    | false =>
      rw [filter_cons_of_neg (by simp [hpa])]
      split
      · exact ih hp' hs hs'
      · rw [filter_cons_of_neg (by simp [hpa])]
        refine ih hp' (fun b hb hpb hk => ?_) fun b hb hpb hk => mem_cons_of_mem _ (hs' b hb hpb hk)
        rcases mem_cons.mp hk with hk | hk
        · have := hp b (mem_cons_of_mem _ hb) a mem_cons_self hk
          rw [hpb, hpa] at this
          cases this
        · exact hs b hb hpb hk
    | true =>
      rw [filter_cons_of_pos hpa, distinctFrom]
      have hmem : key a ∈ seen ↔ key a ∈ seen' :=
        ⟨hseen a mem_cons_self hpa, hseen' a mem_cons_self hpa⟩
      split
      · next ha =>
        rw [if_pos (hmem.mp ha)]
        exact ih hp' hs hs'
      · next ha =>
        rw [if_neg (mt hmem.mpr ha), filter_cons_of_pos hpa]
        congr 1
        refine ih hp' (fun b hb hpb hk => ?_) fun b hb hpb hk => ?_
        all_goals rcases mem_cons.mp hk with hk | hk
        · exact mem_cons.mpr (.inl hk)
        · exact mem_cons_of_mem _ (hs b hb hpb hk)
        · exact mem_cons.mpr (.inl hk)
        · exact mem_cons_of_mem _ (hs' b hb hpb hk)

theorem filter_distinctBy {p : α → Bool} (hp : ∀ a ∈ as, ∀ b ∈ as, key a = key b → p a = p b) :
    (distinctBy key as).filter p = distinctBy key (as.filter p) :=
  filter_distinctFrom hp (fun _ _ _ h => h) fun _ _ _ h => h

end

/-! ## Sorting a log -/

section

variable {r : α → α → Prop} [DecidableRel r]

theorem orderedInsert_append {a : α} {as bs : List α} (h : ∀ b ∈ bs, r a b) :
    (as ++ bs).orderedInsert r a = as.orderedInsert r a ++ bs := by
  induction as with
  | nil =>
    cases bs with
    | nil => rfl
    | cons b bs => simp [List.orderedInsert, h b mem_cons_self]
  | cons c as ih =>
    simp only [cons_append, List.orderedInsert]
    split
    · rfl
    · rw [ih, cons_append]

/-- What is later than all the rest, and in order, stays where it is. -/
theorem insertionSort_append {as bs : List α} (h : ∀ a ∈ as, ∀ b ∈ bs, r a b) (hb : bs.Pairwise r) :
    (as ++ bs).insertionSort r = as.insertionSort r ++ bs := by
  induction as with
  | nil => exact hb.insertionSort_eq
  | cons a as ih =>
    rw [cons_append, insertionSort_cons, insertionSort_cons,
      ih fun c hc => h c (mem_cons_of_mem _ hc)]
    exact orderedInsert_append (h a mem_cons_self)

end

end Js
