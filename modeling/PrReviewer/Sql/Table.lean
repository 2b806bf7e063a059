import Mathlib.Data.List.Nodup
import Mathlib.Data.List.Count

/-!
# Tables with a primary key

A table is a set of rows of which no two have the same key. The statements are the ones that PostgreSQL
documents, each on one table: `INSERT`, which a row with the same key refuses (`insert?`), with its two
`ON CONFLICT` forms (`insertOrUpdate`, `insertOrNothing`), `UPDATE` and `DELETE` with a condition
(`updateWhere`, `deleteWhere`), the number of rows that a condition hits (`rowCount`) and `SELECT`
(`select`). An `Update` is a `SET` clause that leaves the key columns alone.

`lookup` is the row of a key. All statements are described by the lookups after them (`lookup_*`), and a
condition that names the key hits that row or none (`select_key`, `rowCount_key`).
-/

open List

namespace Sql

variable {ρ κ : Type} [DecidableEq κ] {key : ρ → κ}

/-- Rows with distinct keys. -/
structure Table (key : ρ → κ) where
  rows : List ρ
  unique : (rows.map key).Nodup

/-- A `SET` clause. -/
structure Update (key : ρ → κ) where
  set : ρ → ρ
  key_set : ∀ r, key (set r) = key r

namespace Table

def empty : Table key := ⟨[], nodup_nil⟩

/-- The row of a key. -/
def lookup (t : Table key) (k : κ) : Option ρ := t.rows.find? fun r => key r = k

/-- `SELECT * … WHERE p`. -/
def select (t : Table key) (p : ρ → Bool) : List ρ := t.rows.filter p

/-- How many rows a statement with the condition `p` hits. -/
def rowCount (t : Table key) (p : ρ → Bool) : Nat := t.rows.countP p

variable {t : Table key} {k k₀ : κ} {r : ρ} {u : Update key}

theorem lookup_eq_some_iff :
    t.lookup k = some r ↔ r ∈ t.rows ∧ key r = k := by
  obtain ⟨rows, h⟩ := t
  change rows.find? _ = some r ↔ r ∈ rows ∧ key r = k
  induction rows with
  | nil => simp
  | cons a rows ih =>
    rw [map_cons, nodup_cons] at h
    rw [List.find?_cons]
    by_cases ha : key a = k
    · have hrest : ∀ r ∈ rows, key r ≠ k := fun r hr heq =>
        h.1 (mem_map.mpr ⟨r, hr, heq.trans ha.symm⟩)
      simp only [ha, decide_true]
      grind
    · simp only [ha, decide_false]
      rw [ih h.2]
      grind

theorem mem_rows_iff : r ∈ t.rows ↔ t.lookup (key r) = some r := by
  simp [lookup_eq_some_iff]

theorem lookup_eq_none_iff :
    t.lookup k = none ↔ k ∉ t.rows.map key := by
  simp [lookup, List.find?_eq_none]

/-- Two tables with the same lookups: the second has `r` at `k` exactly when the equation says so. -/
theorem lookup_ext {o : Option ρ}
    (h : ∀ r, (r ∈ t.rows ∧ key r = k) ↔ o = some r) : t.lookup k = o := by
  ext r
  rw [lookup_eq_some_iff, h]

@[simp] theorem lookup_empty (k : κ) : (empty : Table key).lookup k = none := rfl

/-! ## INSERT -/

/-- A table with one more row, whose key is new. -/
def append (t : Table key) (r : ρ) (h : key r ∉ t.rows.map key) : Table key :=
  ⟨t.rows ++ [r], by
    rw [map_append, nodup_append]
    refine ⟨t.unique, by simp, ?_⟩
    simp only [map_cons, map_nil, mem_singleton]
    rintro k hk _ rfl heq
    exact h (heq ▸ hk)⟩

theorem lookup_append (h : key r ∉ t.rows.map key) (k : κ) :
    (t.append r h).lookup k = if k = key r then some r else t.lookup k := by
  apply lookup_ext
  intro r'
  split
  · next hk =>
    subst hk
    simp only [append, mem_append, mem_singleton, Option.some.injEq]
    constructor
    · rintro ⟨hr' | rfl, hkey⟩
      · exact absurd (mem_map.mpr ⟨r', hr', hkey⟩) h
      · rfl
    · rintro rfl
      exact ⟨.inr rfl, rfl⟩
  · next hk =>
    simp only [append, mem_append, mem_singleton, lookup_eq_some_iff]
    constructor
    · rintro ⟨hr' | rfl, hkey⟩
      · exact ⟨hr', hkey⟩
      · exact absurd hkey.symm hk
    · rintro ⟨hr', hkey⟩
      exact ⟨.inl hr', hkey⟩

/-- `INSERT`; `none` when the key is taken (a unique violation). -/
def insert? (t : Table key) (r : ρ) : Option (Table key) :=
  if h : key r ∈ t.rows.map key then none else some (t.append r h)

/-- `INSERT … ON CONFLICT DO NOTHING`, with the number of rows inserted. -/
def insertOrNothing (t : Table key) (r : ρ) : Nat × Table key :=
  match t.insert? r with
  | none => (0, t)
  | some t' => (1, t')

theorem insert?_eq_none_iff :
    t.insert? r = none ↔ (t.lookup (key r)).isSome = true := by
  rw [insert?, ← Option.ne_none_iff_isSome, ne_eq, lookup_eq_none_iff]
  split <;> simp_all

theorem lookup_insert? {t' : Table key} (h : t.insert? r = some t') (k : κ) :
    t'.lookup k = if k = key r then some r else t.lookup k := by
  unfold insert? at h
  split at h
  · cases h
  · cases h
    exact lookup_append _ k

/-! ## UPDATE and DELETE -/

/-- `UPDATE … SET … WHERE p`. -/
def updateWhere (t : Table key) (p : ρ → Bool) (u : Update key) : Table key :=
  ⟨t.rows.map fun r => if p r then u.set r else r, by
    have hkeys : (t.rows.map fun r => if p r then u.set r else r).map key = t.rows.map key := by
      rw [map_map]
      refine map_congr_left fun r _ => ?_
      dsimp only [Function.comp]
      split
      · exact u.key_set r
      · rfl
    rw [hkeys]
    exact t.unique⟩

theorem lookup_updateWhere {p : ρ → Bool} (k : κ) :
    (t.updateWhere p u).lookup k = (t.lookup k).map fun r => if p r then u.set r else r := by
  have hkey : ∀ r, key (if p r then u.set r else r) = key r := fun r => by
    split
    · exact u.key_set r
    · rfl
  apply lookup_ext
  intro r'
  simp only [updateWhere, mem_map, Option.map_eq_some_iff, lookup_eq_some_iff]
  constructor
  · rintro ⟨⟨r, hr, rfl⟩, hk⟩
    exact ⟨r, ⟨hr, (hkey r).symm.trans hk⟩, rfl⟩
  · rintro ⟨r, ⟨hr, hk⟩, rfl⟩
    exact ⟨⟨r, hr, rfl⟩, (hkey r).trans hk⟩

/-- `DELETE … WHERE p`. -/
def deleteWhere (t : Table key) (p : ρ → Bool) : Table key :=
  ⟨t.rows.filter fun r => !p r, t.unique.sublist (filter_sublist.map _)⟩

theorem lookup_deleteWhere {p : ρ → Bool} (k : κ) :
    (t.deleteWhere p).lookup k = (t.lookup k).filter fun r => !p r := by
  apply lookup_ext
  intro r
  simp only [deleteWhere, mem_filter, Option.filter_eq_some_iff, lookup_eq_some_iff]
  tauto

/-- `INSERT … ON CONFLICT (key) DO UPDATE SET …`; the clause reads the row that could not be inserted. -/
def insertOrUpdate (t : Table key) (r : ρ) (u : ρ → Update key) : Table key :=
  match t.insert? r with
  | none => t.updateWhere (fun old => key old = key r) (u r)
  | some t' => t'

theorem lookup_insertOrUpdate {u : ρ → Update key} (k : κ) :
    (t.insertOrUpdate r u).lookup k =
      if k = key r then some ((t.lookup k).elim r (u r).set) else t.lookup k := by
  unfold insertOrUpdate
  cases hinsert : t.insert? r with
  | none =>
    obtain ⟨old, hold⟩ := Option.isSome_iff_exists.mp (insert?_eq_none_iff.mp hinsert)
    dsimp only
    rw [lookup_updateWhere]
    split
    · next hk =>
      subst hk
      simp [hold, (lookup_eq_some_iff.mp hold).2]
    · next hk =>
      cases hlookup : t.lookup k with
      | none => rfl
      | some r' => simp [(lookup_eq_some_iff.mp hlookup).2, hk]
  | some t' =>
    dsimp only
    rw [lookup_insert? hinsert]
    split
    · next hk =>
      subst hk
      cases hlookup : t.lookup (key r) with
      | none => rfl
      | some r' =>
        have hnone : t.insert? r = none := insert?_eq_none_iff.mpr (by simp [hlookup])
        rw [hnone] at hinsert
        cases hinsert
    · rfl

/-! ## One key -/

/-- A condition that names the key hits the row of that key, if the rest of it holds there. -/
theorem select_key (t : Table key) (k : κ) (q : ρ → Bool) :
    t.select (fun r => key r = k && q r) = ((t.lookup k).filter q).toList := by
  obtain ⟨rows, h⟩ := t
  change rows.filter _ = ((rows.find? fun r => key r = k).filter q).toList
  induction rows with
  | nil => rfl
  | cons a rows ih =>
    rw [map_cons, nodup_cons] at h
    rw [List.find?_cons]
    by_cases ha : key a = k
    · have hrest : rows.filter (fun r => key r = k && q r) = [] := by
        rw [filter_eq_nil_iff]
        intro r hr hp
        rw [Bool.and_eq_true, decide_eq_true_eq] at hp
        exact h.1 (mem_map.mpr ⟨r, hr, hp.1.trans ha.symm⟩)
      cases hq : q a <;> simp [ha, hq, hrest, Option.filter]
    · simp only [ha, decide_false]
      rw [filter_cons_of_neg (by simp [ha]), ih h.2]

theorem select_eq_key (t : Table key) (k : κ) :
    t.select (fun r => key r = k) = (t.lookup k).toList := by
  have hselect := t.select_key k fun _ => true
  simp only [Bool.and_true] at hselect
  rw [hselect]
  cases t.lookup k <;> rfl

theorem rowCount_key (t : Table key) (k : κ) (q : ρ → Bool) :
    t.rowCount (fun r => key r = k && q r) = if (t.lookup k).any q then 1 else 0 := by
  have hselect := congrArg List.length (t.select_key k q)
  rw [select, ← countP_eq_length_filter] at hselect
  rw [rowCount, hselect]
  cases t.lookup k with
  | none => rfl
  | some r => cases hq : q r <;> simp [Option.filter, hq]

theorem lookup_updateWhere_key {q : ρ → Bool} (k : κ) :
    (t.updateWhere (fun r => key r = k₀ && q r) u).lookup k =
      if k = k₀ then (t.lookup k).map (fun r => if q r then u.set r else r) else t.lookup k := by
  rw [lookup_updateWhere]
  cases hlookup : t.lookup k with
  | none => simp
  | some r =>
    have hr := (lookup_eq_some_iff.mp hlookup).2
    by_cases hk : k = k₀
    · simp [hr, hk]
    · simp [hr, hk]

theorem lookup_deleteWhere_key {q : ρ → Bool} (k : κ) :
    (t.deleteWhere (fun r => key r = k₀ && q r)).lookup k =
      if k = k₀ then (t.lookup k).filter (fun r => !q r) else t.lookup k := by
  rw [lookup_deleteWhere]
  cases hlookup : t.lookup k with
  | none => simp
  | some r =>
    have hr := (lookup_eq_some_iff.mp hlookup).2
    by_cases hk : k = k₀
    · subst hk
      simp [Option.filter, hr]
    · simp [hr, hk, Option.filter]

end Table

end Sql
