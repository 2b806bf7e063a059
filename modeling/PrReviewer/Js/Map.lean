import Mathlib.Algebra.GroupWithZero.Nat
import Mathlib.Data.List.Nodup
import Mathlib.Data.List.Count

/-!
# Insertion-ordered maps

`Map κ ν` is the JavaScript `Map`: unique keys, iterated in insertion order. Setting a key that is
present replaces its value and keeps its place; setting an absent key appends it; a deleted key
that is set again goes to the end.

- **Loops** (`entries_forall`): what holds of every entry of a map holds of every lookup.
-/

open List

namespace Js

/-- An insertion-ordered map with unique keys. -/
structure Map (κ ν : Type) where
  entries : List (κ × ν)
  nodup : (entries.map Prod.fst).Nodup

namespace Map

variable {κ ν : Type} [DecidableEq κ]

def empty : Map κ ν := ⟨[], nodup_nil⟩

def keys (m : Map κ ν) : List κ := m.entries.map Prod.fst

def values (m : Map κ ν) : List ν := m.entries.map Prod.snd

def size (m : Map κ ν) : Nat := m.entries.length

def get? (m : Map κ ν) (k : κ) : Option ν := m.entries.lookup k

def has (m : Map κ ν) (k : κ) : Bool := (m.get? k).isSome

/-- The entries after `k` was set to `v`. -/
def setEntries (k : κ) (v : ν) : List (κ × ν) → List (κ × ν)
  | [] => [(k, v)]
  | e :: es => if e.1 = k then (k, v) :: es else e :: setEntries k v es

variable {x : κ} {es done : List (κ × ν)} {w : ν}

theorem mem_keys_setEntries {k : κ} {v : ν} :
    x ∈ (setEntries k v es).map Prod.fst ↔ x = k ∨ x ∈ es.map Prod.fst := by
  induction es with
  | nil => simp [setEntries]
  | cons e es ih =>
    unfold setEntries
    split
    · next h => simp [h]
    · simp only [map_cons, mem_cons, ih]
      tauto

theorem nodup_setEntries {k : κ} {v : ν} (h : (es.map Prod.fst).Nodup) :
    ((setEntries k v es).map Prod.fst).Nodup := by
  induction es with
  | nil => simp [setEntries]
  | cons e es ih =>
    rw [map_cons, nodup_cons] at h
    unfold setEntries
    split
    · next he => subst he; simpa using h
    · next he =>
      rw [map_cons, nodup_cons, mem_keys_setEntries]
      exact ⟨fun hm => hm.elim he h.1, ih h.2⟩

def set (m : Map κ ν) (k : κ) (v : ν) : Map κ ν :=
  ⟨setEntries k v m.entries, nodup_setEntries m.nodup⟩

def delete (m : Map κ ν) (k : κ) : Map κ ν :=
  ⟨m.entries.filter (fun e => e.1 ≠ k), m.nodup.sublist (filter_sublist.map _)⟩

/-- The map of a list of entries, in their order; `none` when a key comes twice. -/
def ofEntries? (es : List (κ × ν)) : Option (Map κ ν) :=
  if h : (es.map Prod.fst).Nodup then some ⟨es, h⟩ else none

/-! ## Lookup -/

theorem lookup_cons_ite (x : κ) (e : κ × ν) (es : List (κ × ν)) :
    (e :: es).lookup x = if x = e.1 then some e.2 else es.lookup x := by
  obtain ⟨a, w⟩ := e
  by_cases h : x = a
  · simp [h]
  · simp [lookup_cons, h, beq_eq_false_iff_ne.mpr h]

theorem lookup_setEntries (k x : κ) (v : ν) (es : List (κ × ν)) :
    (setEntries k v es).lookup x = if x = k then some v else es.lookup x := by
  induction es with
  | nil => simp [setEntries, lookup_cons_ite]
  | cons e es ih =>
    unfold setEntries
    split
    · next he => subst he; simp only [lookup_cons_ite]; split <;> rfl
    · next he =>
      rw [lookup_cons_ite, lookup_cons_ite, ih]
      by_cases hx : x = k
      · subst hx; simp [Ne.symm he]
      · simp [hx]

theorem get?_set (m : Map κ ν) (k x : κ) (v : ν) :
    (m.set k v).get? x = if x = k then some v else m.get? x :=
  lookup_setEntries k x v m.entries

@[simp] theorem get?_set_self (m : Map κ ν) (k : κ) (v : ν) : (m.set k v).get? k = some v := by
  simp [get?_set]

theorem get?_set_ne {m : Map κ ν} {k : κ} {v : ν} (h : x ≠ k) :
    (m.set k v).get? x = m.get? x := by
  simp [get?_set, h]

theorem get?_delete (m : Map κ ν) (k x : κ) :
    (m.delete k).get? x = if x = k then none else m.get? x := by
  obtain ⟨es, h⟩ := m
  simp only [get?, delete]
  clear h
  induction es with
  | nil => simp
  | cons e es ih =>
    by_cases ha : e.1 = k
    · rw [filter_cons_of_neg (by simp [ha]), ih, lookup_cons_ite]
      by_cases hx : x = k <;> simp [hx, ha]
    · rw [filter_cons_of_pos (by simp [ha]), lookup_cons_ite, lookup_cons_ite, ih]
      by_cases hx : x = k
      · subst hx; simp [Ne.symm ha]
      · simp [hx]

@[simp] theorem get?_empty (k : κ) : (empty : Map κ ν).get? k = none := rfl

theorem lookup_eq_some_iff (h : (es.map Prod.fst).Nodup) {k : κ} {v : ν} :
    es.lookup k = some v ↔ (k, v) ∈ es := by
  induction es with
  | nil => simp
  | cons e es ih =>
    obtain ⟨a, w⟩ := e
    rw [map_cons, nodup_cons] at h
    rw [lookup_cons_ite]
    by_cases hk : k = a
    · subst hk
      have hn : (k, v) ∉ es := fun hm => h.1 (mem_map.mpr ⟨_, hm, rfl⟩)
      simp [hn, eq_comm]
    · simp [hk, ih h.2]

/-- An entry of the map is a lookup that succeeds. -/
theorem mem_entries_iff {m : Map κ ν} {k : κ} {v : ν} :
    (k, v) ∈ m.entries ↔ m.get? k = some v :=
  (lookup_eq_some_iff m.nodup).symm

theorem mem_values_iff {m : Map κ ν} {v : ν} : v ∈ m.values ↔ ∃ k, m.get? k = some v := by
  simp only [values, mem_map, ← mem_entries_iff]
  exact ⟨fun ⟨⟨k, _⟩, he, hv⟩ => ⟨k, by simpa [← hv] using he⟩, fun ⟨k, hk⟩ => ⟨_, hk, rfl⟩⟩

theorem has_eq_false_iff {m : Map κ ν} {k : κ} : m.has k = false ↔ m.get? k = none := by
  simp [has]

theorem ofEntries?_entries {m : Map κ ν} (h : ofEntries? es = some m) :
    m.entries = es := by
  unfold ofEntries? at h
  split at h
  · simp only [Option.some.injEq] at h
    rw [← h]
  · simp at h

theorem foldl_skip {β : Type} {f : β → ν → β} {k : κ} (t : β)
    (h : k ∉ es.map Prod.fst) :
    es.foldl (fun t e => if k = e.1 then f t e.2 else t) t = t := by
  induction es with
  | nil => rfl
  | cons e es ih =>
    rw [map_cons, mem_cons, not_or] at h
    rw [foldl_cons, if_neg h.1, ih h.2]

/-- A loop over the entries that passes over all keys but one. -/
theorem foldl_entries_at {β : Type} (m : Map κ ν) (k : κ) (f : β → ν → β) (t : β) :
    m.entries.foldl (fun t e => if k = e.1 then f t e.2 else t) t =
      (m.get? k).elim t (f t) := by
  obtain ⟨es, hn⟩ := m
  change es.foldl _ t = (es.lookup k).elim t (f t)
  induction es with
  | nil => rfl
  | cons e es ih =>
    rw [map_cons, nodup_cons] at hn
    rw [foldl_cons, lookup_cons_ite]
    by_cases he : k = e.1
    · rw [if_pos he, if_pos he, foldl_skip _ (he ▸ hn.1)]
      rfl
    · rw [if_neg he, if_neg he, ih hn.2]

/-! ## Counting -/

/-- How many values satisfy `p`. -/
def count (p : ν → Bool) (m : Map κ ν) : Nat := m.values.countP p

theorem countP_setEntries_le {p : ν → Bool} {k : κ} {v : ν}
    (h : es.lookup k = some v) (hp : p w → p v) :
    ((setEntries k w es).map Prod.snd).countP p ≤ (es.map Prod.snd).countP p := by
  induction es with
  | nil => simp at h
  | cons e es ih =>
    rw [lookup_cons_ite] at h
    by_cases ha : e.1 = k
    · obtain rfl : e.2 = v := by simpa [ha] using h
      simp only [setEntries, ha, if_true, map_cons, countP_cons]
      split <;> rename_i hw
      · simp [hp hw]
      · omega
    · have hes : es.lookup k = some v := by simpa [Ne.symm ha] using h
      simp only [setEntries, ha, if_false, map_cons, countP_cons]
      have := ih hes
      omega

theorem countP_setEntries_le_succ {p : ν → Bool} {k : κ} :
    ((setEntries k w es).map Prod.snd).countP p ≤ (es.map Prod.snd).countP p + 1 := by
  induction es with
  | nil => simp only [setEntries, map_cons, countP_cons]; split <;> simp
  | cons e es ih =>
    by_cases ha : e.1 = k
    · simp only [setEntries, ha, if_true, map_cons, countP_cons]
      split <;> omega
    · simp only [setEntries, ha, if_false, map_cons, countP_cons]
      omega

/-- Replacing a value by one that counts only when it did does not raise the count. -/
theorem count_set_le {p : ν → Bool} {m : Map κ ν} {k : κ} {v : ν} (h : m.get? k = some v)
    (hp : p w → p v) : (m.set k w).count p ≤ m.count p :=
  countP_setEntries_le h hp

theorem count_set_le_succ {p : ν → Bool} {m : Map κ ν} {k : κ} :
    (m.set k w).count p ≤ m.count p + 1 :=
  countP_setEntries_le_succ

theorem countP_setEntries_of_not {p : ν → Bool} {k : κ}
    (hw : p w = false) :
    ((setEntries k w es).map Prod.snd).countP p ≤ (es.map Prod.snd).countP p := by
  induction es with
  | nil => simp [setEntries, hw]
  | cons e es ih =>
    by_cases ha : e.1 = k
    · simp [setEntries, ha, countP_cons, hw]
    · simp only [setEntries, ha, if_false, map_cons, countP_cons]
      omega

/-- A value that does not count does not raise the count. -/
theorem count_set_of_not {p : ν → Bool} {m : Map κ ν} {k : κ} (hw : p w = false) :
    (m.set k w).count p ≤ m.count p :=
  countP_setEntries_of_not hw

/-! ## Sums -/

theorem values_set_of_none {m : Map κ ν} {k : κ} {v : ν} (h : m.get? k = none) :
    (m.set k v).values = m.values ++ [v] := by
  obtain ⟨es, hn⟩ := m
  change (setEntries k v es).map Prod.snd = es.map Prod.snd ++ [v]
  change es.lookup k = none at h
  clear hn
  induction es with
  | nil => rfl
  | cons e es ih =>
    rw [lookup_cons_ite] at h
    split at h
    · cases h
    · next hne => simp [setEntries, Ne.symm hne, ih h]

theorem size_set_of_none {m : Map κ ν} {k : κ} {v : ν} (h : m.get? k = none) :
    (m.set k v).size = m.size + 1 := by
  have hlength := congrArg List.length (values_set_of_none (v := v) h)
  simpa [values, size] using hlength

theorem size_set_of_some {m : Map κ ν} {k : κ} {v : ν} (h : m.get? k = some v) :
    (m.set k w).size = m.size := by
  obtain ⟨es, hn⟩ := m
  change (setEntries k w es).length = es.length
  change es.lookup k = some v at h
  clear hn
  induction es with
  | nil => cases h
  | cons e es ih =>
    rw [lookup_cons_ite] at h
    split at h
    · next he => rw [setEntries, if_pos he.symm, length_cons, length_cons]
    · next he => rw [setEntries, if_neg (Ne.symm he), length_cons, length_cons, ih h]

theorem sum_setEntries {f : ν → Nat} {k : κ} {v : ν}
    (h : es.lookup k = some v) :
    (((setEntries k w es).map Prod.snd).map f).sum + f v =
      ((es.map Prod.snd).map f).sum + f w := by
  induction es with
  | nil => cases h
  | cons e es ih =>
    rw [lookup_cons_ite] at h
    split at h
    · next he =>
      cases h
      simp only [setEntries, he, if_true, map_cons, sum_cons]
      omega
    · next he =>
      have := ih h
      simp only [setEntries, Ne.symm he, if_false, map_cons, sum_cons]
      omega

/-- The sum over the values, after one of them was replaced. -/
theorem sum_set {f : ν → Nat} {m : Map κ ν} {k : κ} {v : ν} (h : m.get? k = some v) :
    ((m.set k w).values.map f).sum + f v = (m.values.map f).sum + f w :=
  sum_setEntries h

/-! ## A part of the keys -/

/-- The entries whose key satisfies `p`. -/
def filterKeys (p : κ → Bool) (m : Map κ ν) : Map κ ν :=
  ⟨m.entries.filter (fun e => p e.1), m.nodup.sublist (filter_sublist.map _)⟩

omit [DecidableEq κ] in
theorem ext_entries {m m' : Map κ ν} (h : m.entries = m'.entries) : m = m' := by
  cases m; cases m'; cases h; rfl

variable {p : κ → Bool} {m : Map κ ν} {k : κ} {v : ν}

theorem get?_filterKeys (p : κ → Bool) (m : Map κ ν) (k : κ) :
    (m.filterKeys p).get? k = if p k then m.get? k else none := by
  ext v
  rw [← mem_entries_iff]
  change (k, v) ∈ m.entries.filter (fun e => p e.1) ↔ _
  rw [mem_filter, mem_entries_iff]
  split
  · next h => simp [h]
  · next h => simp [h]

theorem filter_setEntries (h : p k = true) :
    (setEntries k v es).filter (fun e => p e.1) =
      setEntries k v (es.filter (fun e => p e.1)) := by
  induction es with
  | nil => simp [setEntries, h]
  | cons e es ih =>
    by_cases he : e.1 = k
    · simp [setEntries, he, h]
    · cases hp : p e.1 <;> simp [setEntries, he, hp, ih]

/-- Setting a key that is kept. -/
theorem filterKeys_set (h : p k = true) : (m.set k v).filterKeys p = (m.filterKeys p).set k v :=
  ext_entries (filter_setEntries h)

/-! ## Rebuilding -/

theorem setEntries_of_not_mem {k : κ} {v : ν} (h : k ∉ es.map Prod.fst) :
    setEntries k v es = es ++ [(k, v)] := by
  induction es with
  | nil => rfl
  | cons e es ih =>
    rw [map_cons, mem_cons, not_or] at h
    rw [setEntries, if_neg (Ne.symm h.1), ih h.2]
    rfl

theorem setEntries_last {k : κ} {v : ν} (h : k ∉ es.map Prod.fst) :
    setEntries k w (es ++ [(k, v)]) = es ++ [(k, w)] := by
  induction es with
  | nil => simp [setEntries]
  | cons e es ih =>
    rw [map_cons, mem_cons, not_or] at h
    rw [cons_append, setEntries, if_neg (Ne.symm h.1), ih h.2]
    rfl

omit [DecidableEq κ] in
theorem not_mem_of_nodup {e : κ × ν}
    (h : ((done ++ e :: es).map Prod.fst).Nodup) : e.1 ∉ done.map Prod.fst := by
  rw [map_append, nodup_append] at h
  exact fun he => h.2.2 _ he _ (by simp) rfl

/-- A key that is not among the entries of a map has no value in it, and goes behind them. -/
theorem get?_of_fresh {m : Map κ ν} {k : κ} (hm : m.entries = done)
    (hk : k ∉ done.map Prod.fst) : m.get? k = none := by
  rw [get?, hm, List.lookup_eq_none_iff]
  intro p hp
  rw [bne_iff_ne]
  rintro heq
  exact hk (heq ▸ mem_map_of_mem hp)

theorem entries_set_of_fresh {m : Map κ ν} {k : κ} (hm : m.entries = done)
    (hk : k ∉ done.map Prod.fst) (v : ν) : (m.set k v).entries = done ++ [(k, v)] := by
  change setEntries k v m.entries = _
  rw [hm, setEntries_of_not_mem hk]

end Map

end Js
