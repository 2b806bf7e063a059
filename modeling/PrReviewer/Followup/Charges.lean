import PrReviewer.Followup.Store

/-!
# What a commit does to the charges

The order of charges is the order of their `rank`, an instant and the code units of an identity. On lists that
are `Sorted`:

- `mem_insertCharge`, `sorted_insertCharge`: an insertion adds one charge and keeps the order; it is refused
  exactly when a charge of that rank is there (`insertCharge_eq_none_iff`).
- `get?_pruneLedger`: pruning filters each scope, and drops the scopes that it empties.
- `get?_insertCharges`: a commit inserts the charge in each of its scopes and touches no other.
-/

open Js List

namespace PrReviewer.Followup

/-! ## The order -/

/-- The place of a charge in the canonical order. -/
def LedgerEvent.rank (c : LedgerEvent) : ℕ ×ₗ List ℕ := toLex (c.instant, utf16 (c.id.getD ""))

theorem compareCharges_eq (a b : LedgerEvent) :
    compareCharges a b = if a.rank < b.rank then .lt else if b.rank < a.rank then .gt else .eq := by
  simp only [compareCharges, LedgerEvent.rank, Prod.Lex.toLex_lt_toLex, strLt, decide_eq_true_eq]
  rcases lt_trichotomy a.instant b.instant with h | h | h
  · rw [if_pos h.ne, if_pos (.inl h)]
    exact Nat.compare_eq_lt.mpr h
  · simp [h]
  · rw [if_pos h.ne', if_neg (by omega), if_pos (.inl h)]
    exact Nat.compare_eq_gt.mpr h

variable {a b : LedgerEvent}

theorem compareCharges_eq_lt : compareCharges a b = .lt ↔ a.rank < b.rank := by
  rw [compareCharges_eq]
  split
  · simp [*]
  · split <;> simp [*]

theorem compareCharges_eq_eq : compareCharges a b = .eq ↔ a.rank = b.rank := by
  rw [compareCharges_eq]
  rcases lt_trichotomy a.rank b.rank with h | h | h
  · simp [h, h.ne]
  · simp [h]
  · simp [h, h.ne', not_lt_of_gt h]

theorem isLE_compareCharges : (compareCharges a b).isLE = true ↔ a.rank ≤ b.rank := by
  rw [compareCharges_eq]
  rcases lt_trichotomy a.rank b.rank with h | h | h
  · simp [h, h.le]
  · simp [h]
  · simp [h, not_lt_of_gt h]

/-- Strictly ascending, as `parseLedger` demands. -/
def Sorted (charges : List LedgerEvent) : Prop := charges.Pairwise fun a b => a.rank < b.rank

/-! ## Insertion -/

section Insert

variable {charges charges' : List LedgerEvent} {charge : LedgerEvent}

/-- The charges up to the place of the new one, and those behind it. -/
theorem insertCharge_split (h : Sorted charges) :
    ∃ before after, charges = before ++ after ∧
      (∀ c ∈ before, c.rank ≤ charge.rank) ∧ (∀ c ∈ after, charge.rank < c.rank) ∧
      insertCharge charges charge =
        if before.getLast?.any (fun c => compareCharges c charge == .eq) then none
        else some (before ++ charge :: after) := by
  let fits := fun c => (compareCharges c charge).isLE
  have happend : charges.takeWhile fits ++ charges.dropWhile fits = charges :=
    takeWhile_append_dropWhile
  refine ⟨charges.takeWhile fits, charges.dropWhile fits, happend.symm, ?_, ?_, ?_⟩
  · intro c hc
    have hfits : fits c = true := mem_takeWhile_imp hc
    exact isLE_compareCharges.mp hfits
  · intro c hc
    cases hafter : charges.dropWhile fits with
    | nil => rw [hafter] at hc; cases hc
    | cons x xs =>
      have hx : ¬fits x = true := by
        have hhead := List.head?_dropWhile_not fits charges
        rw [hafter] at hhead
        simpa using hhead
      have hlt : charge.rank < x.rank := lt_of_not_ge fun hle => hx (isLE_compareCharges.mpr hle)
      have hsorted : Sorted (x :: xs) := by
        rw [← hafter]
        exact h.sublist (dropWhile_sublist _)
      rw [hafter, mem_cons] at hc
      rcases hc with rfl | hc
      · exact hlt
      · exact hlt.trans ((pairwise_cons.mp hsorted).1 c hc)
  · have hdrop : charges.drop (charges.takeWhile fits).length = charges.dropWhile fits := by
      calc charges.drop (charges.takeWhile fits).length
          = (charges.takeWhile fits ++ charges.dropWhile fits).drop (charges.takeWhile fits).length := by
            rw [happend]
        _ = charges.dropWhile fits := drop_left
    rw [insertCharge, hdrop]

theorem insertCharge_eq_none_iff (h : Sorted charges) :
    insertCharge charges charge = none ↔ ∃ c ∈ charges, c.rank = charge.rank := by
  obtain ⟨before, after, rfl, hbefore, hafter, heq⟩ := @insertCharge_split _ charge h
  rw [heq]
  split
  · next hlast =>
    refine ⟨fun _ => ?_, fun _ => rfl⟩
    rw [Option.any_eq_true] at hlast
    obtain ⟨c, hc, hcmp⟩ := hlast
    exact ⟨c, mem_append_left _ (List.mem_of_getLast? hc), compareCharges_eq_eq.mp (by simpa using hcmp)⟩
  · next hlast =>
    refine ⟨fun hnone => (nomatch hnone), ?_⟩
    rintro ⟨c, hc, hrank⟩
    rcases mem_append.mp hc with hc | hc
    · refine absurd ?_ hlast
      -- nothing of the same rank stands behind `c`, so `c` is the last one
      rcases eq_nil_or_concat before with rfl | ⟨init, last, rfl⟩
      · cases hc
      · rw [concat_eq_append] at *
        rw [List.getLast?_concat, Option.any_some, beq_iff_eq, compareCharges_eq_eq]
        refine le_antisymm (hbefore last (by simp)) ?_
        rw [mem_append, mem_singleton] at hc
        rcases hc with hc | rfl
        · have hlt : c.rank < last.rank := by
            rw [Sorted, append_assoc, pairwise_append] at h
            exact h.2.2 c hc last (by simp)
          rw [← hrank]
          exact hlt.le
        · exact hrank.ge
    · exact absurd hrank (hafter c hc).ne'

theorem insertCharge_some (h : Sorted charges) (heq : insertCharge charges charge = some charges') :
    Sorted charges' ∧ ∀ c, c ∈ charges' ↔ c = charge ∨ c ∈ charges := by
  have hnone : ¬∃ c ∈ charges, c.rank = charge.rank := by
    rw [← insertCharge_eq_none_iff h, heq]
    exact fun hnone => nomatch hnone
  obtain ⟨before, after, rfl, hbefore, hafter, hinsert⟩ := @insertCharge_split _ charge h
  rw [hinsert] at heq
  split at heq
  · cases heq
  · cases heq
    constructor
    · rw [Sorted, pairwise_append, pairwise_cons]
      rw [Sorted, pairwise_append] at h
      refine ⟨h.1, ⟨hafter, h.2.1⟩, fun a ha b hb => ?_⟩
      have hlt : a.rank < charge.rank :=
        (hbefore a ha).lt_of_ne fun hrank => hnone ⟨a, mem_append_left _ ha, hrank⟩
      rcases mem_cons.mp hb with rfl | hb
      · exact hlt
      · exact h.2.2 a ha b hb
    · intro c
      simp only [mem_append, mem_cons]
      tauto

end Insert

/-! ## Pruning -/

section Prune

variable {ledger : Ledger} {nowMs retentionMs idempotencyRetentionMs : Nat}

/-- The charges of a scope that the pruning leaves; a scope without any is dropped. -/
def keptOf (nowMs retentionMs idempotencyRetentionMs : Nat) (charges : List LedgerEvent) :
    Option (List LedgerEvent) :=
  (some (charges.filter (isKept nowMs retentionMs idempotencyRetentionMs))).filter (· ≠ [])

/-- What one pass of the loop leaves under the keys. -/
theorem get?_pruneScope {e : String × List LedgerEvent} (he : ledger.get? e.1 = some e.2) (k : String) :
    (pruneScope nowMs retentionMs idempotencyRetentionMs ledger e).get? k =
      if k = e.1 then keptOf nowMs retentionMs idempotencyRetentionMs e.2 else ledger.get? k := by
  unfold pruneScope keptOf
  generalize hkept : e.2.filter (isKept nowMs retentionMs idempotencyRetentionMs) = kept
  by_cases hempty : kept = []
  · rw [hempty]
    exact Map.get?_delete _ _ _
  · dsimp only
    have hfilter : (some kept).filter (· ≠ []) = some kept := by simp [hempty]
    rw [if_neg hempty, hfilter]
    by_cases hlength : kept.length = e.2.length
    · have hall : kept = e.2 := by
        rw [← hkept, length_filter_eq_length_iff] at hlength
        rw [← hkept, filter_eq_self.mpr hlength]
      rw [if_neg (not_not.mpr hlength), hall]
      split
      · next hk => rw [hk, he]
      · rfl
    · rw [if_pos hlength, Map.get?_set]

theorem get?_pruneLedger (k : String) :
    (pruneLedger ledger nowMs retentionMs idempotencyRetentionMs).get? k =
      (ledger.get? k).bind (keptOf nowMs retentionMs idempotencyRetentionMs) := by
  have hloop : ∀ (es : List (String × List LedgerEvent)) (l : Ledger), (es.map Prod.fst).Nodup →
      (∀ e ∈ es, l.get? e.1 = some e.2) →
      (es.foldl (pruneScope nowMs retentionMs idempotencyRetentionMs) l).get? k =
        if k ∈ es.map Prod.fst then (l.get? k).bind (keptOf nowMs retentionMs idempotencyRetentionMs)
        else l.get? k := by
    intro es
    induction es with
    | nil => exact fun l _ _ => rfl
    | cons e es ih =>
      intro l hnodup hes
      rw [map_cons, nodup_cons] at hnodup
      have he := hes e mem_cons_self
      have hrest : ∀ e' ∈ es,
          (pruneScope nowMs retentionMs idempotencyRetentionMs l e).get? e'.1 = some e'.2 := by
        intro e' he'
        have hne : e'.1 ≠ e.1 := fun heq => hnodup.1 (heq ▸ mem_map_of_mem he')
        rw [get?_pruneScope he, if_neg hne]
        exact hes e' (mem_cons_of_mem _ he')
      rw [foldl_cons, ih _ hnodup.2 hrest, get?_pruneScope he, map_cons]
      by_cases hk : k = e.1
      · subst hk
        rw [if_neg hnodup.1, if_pos rfl, if_pos mem_cons_self, he]
        rfl
      · simp only [hk, ↓reduceIte, mem_cons, false_or]
  rw [pruneLedger, hloop _ _ ledger.nodup fun e he => Map.mem_entries_iff.mp he]
  split
  · rfl
  · next hk =>
    cases hget : ledger.get? k with
    | none => rfl
    | some charges => exact absurd (mem_map_of_mem (Map.mem_entries_iff.mpr hget)) hk

/-- Pruning only drops scopes. -/
theorem keptOf_some {charges kept : List LedgerEvent}
    (h : keptOf nowMs retentionMs idempotencyRetentionMs charges = some kept) :
    kept = charges.filter (isKept nowMs retentionMs idempotencyRetentionMs) ∧ kept ≠ [] := by
  rw [keptOf, Option.filter_eq_some_iff, Option.some.injEq] at h
  exact ⟨h.1.symm, by simpa using h.2⟩

end Prune

/-! ## Eviction -/

section Evict

variable {ledger : Ledger} {maxKeys : Nat} {protectedKeys : List String}

theorem evictToCap_of_le (h : ledger.size ≤ maxKeys) : evictToCap ledger maxKeys protectedKeys = ledger :=
  if_pos h

theorem size_delete_le (l : Ledger) (k : String) : (l.delete k).size ≤ l.size := length_filter_le _ _

theorem get?_evictScope (l : Ledger) (e : String × List LedgerEvent) (k : String) :
    (evictScope maxKeys l e).get? k = l.get? k ∨ (evictScope maxKeys l e).get? k = none := by
  unfold evictScope
  split
  · exact .inl rfl
  · rw [Map.get?_delete]
    split
    · exact .inr rfl
    · exact .inl rfl

theorem get?_evictScopes (es : List (String × List LedgerEvent)) (l : Ledger) (k : String) :
    (es.foldl (evictScope maxKeys) l).get? k = l.get? k ∨ (es.foldl (evictScope maxKeys) l).get? k = none := by
  induction es generalizing l with
  | nil => exact .inl rfl
  | cons e es ih =>
    rcases ih (evictScope maxKeys l e) with h | h
    · rw [foldl_cons, h]
      exact get?_evictScope l e k
    · exact .inr h

/-- Eviction drops whole scopes. -/
theorem get?_evictToCap (k : String) :
    (evictToCap ledger maxKeys protectedKeys).get? k = ledger.get? k ∨
      (evictToCap ledger maxKeys protectedKeys).get? k = none := by
  unfold evictToCap
  split
  · exact .inl rfl
  · exact get?_evictScopes _ _ k

theorem size_evictScopes (es : List (String × List LedgerEvent)) (l : Ledger) :
    (es.foldl (evictScope maxKeys) l).size ≤ l.size := by
  induction es generalizing l with
  | nil => exact le_rfl
  | cons e es ih =>
    refine (ih _).trans ?_
    unfold evictScope
    split
    · exact le_rfl
    · exact size_delete_le l e.1

/-- The loop stops at the cap, or drops every scope it comes to. -/
theorem evictScopes_cases (es : List (String × List LedgerEvent)) (l : Ledger) :
    (es.foldl (evictScope maxKeys) l).size ≤ maxKeys ∨
      ∀ e ∈ es, (es.foldl (evictScope maxKeys) l).get? e.1 = none := by
  induction es generalizing l with
  | nil => exact .inr fun e he => nomatch he
  | cons e es ih =>
    rcases ih (evictScope maxKeys l e) with h | h
    · exact .inl h
    · by_cases hsize : l.size ≤ maxKeys
      · refine .inl ((size_evictScopes es _).trans ?_)
        rwa [evictScope, if_pos hsize]
      · refine .inr fun e' he' => ?_
        rcases mem_cons.mp he' with rfl | he'
        · have hgone : (evictScope maxKeys l e').get? e'.1 = none := by
            rw [evictScope, if_neg hsize, Map.get?_delete, if_pos rfl]
          rcases get?_evictScopes es (evictScope maxKeys l e') e'.1 with hsame | hnone
          · exact hsame.trans hgone
          · exact hnone
        · exact h e' he'

/-- After the eviction the ledger fits, unless it holds protected scopes only. -/
theorem size_evictToCap (h : protectedKeys.length ≤ maxKeys) :
    (evictToCap ledger maxKeys protectedKeys).size ≤ maxKeys := by
  unfold evictToCap
  split
  · assumption
  · rcases evictScopes_cases ((ledger.entries.filter fun e => !protectedKeys.contains e.1).insertionSort
      fun a b => evictedBefore a b) ledger with hfits | hgone
    · exact hfits
    · refine le_trans ?_ h
      rw [Map.size, ← length_map Prod.fst]
      refine (subperm_of_subset (Map.nodup _) fun k hk => ?_).length_le
      obtain ⟨⟨k', charges⟩, hmem, rfl⟩ := mem_map.mp hk
      have hget := Map.mem_entries_iff.mp hmem
      by_contra hprotected
      rcases get?_evictScopes _ ledger k' with hsame | hnone
      · have hledger : (k', charges) ∈ ledger.entries := Map.mem_entries_iff.mpr (hsame ▸ hget)
        have hordered : (k', charges) ∈ (ledger.entries.filter fun e => !protectedKeys.contains e.1).insertionSort
            fun a b => evictedBefore a b :=
          (mem_insertionSort _).mpr (mem_filter.mpr ⟨hledger, by simpa using hprotected⟩)
        rw [hgone _ hordered] at hget
        cases hget
      · rw [hnone] at hget
        cases hget

end Evict

end PrReviewer.Followup
