import PrReviewer.Followup.Charges
import PrReviewer.Js.Except
import PrReviewer.Js.JsonBlock

/-!
# Ledgers that the parser accepts

`LedgerOk` is what `parseLedger` checks of each scope: a key of the grammar, and charges that are not empty,
strictly ascending and well formed. Every part of a commit keeps it, so the ledgers that are saved are read
back (`parseLedger_serializeLedger`).
-/

open Js List

namespace PrReviewer.Followup

/-- A charge that the parser accepts. -/
def ChargeOk (c : LedgerEvent) : Prop := c.instant ≤ maxSafe ∧ ∀ id ∈ c.id, isDigest id = true

/-- Charges that the parser accepts for a scope. -/
structure ChargesOk (charges : List LedgerEvent) : Prop where
  sorted : Sorted charges
  ne_nil : charges ≠ []
  ok : ∀ c ∈ charges, ChargeOk c

/-- Scopes that the parser accepts. -/
def LedgerOk (ledger : Ledger) : Prop :=
  ∀ k charges, ledger.get? k = some charges → isKey k = true ∧ ChargesOk charges

theorem isDigest_ne_empty {id : String} (h : isDigest id = true) : id ≠ "" := by
  rintro rfl
  exact absurd h (by decide)

/-- The order separates well-formed charges. -/
theorem rank_injective {a b : LedgerEvent} (ha : ChargeOk a) (hb : ChargeOk b) (h : a.rank = b.rank) :
    a = b := by
  obtain ⟨i, id⟩ := a
  obtain ⟨j, id'⟩ := b
  have hpair : (i, utf16 (id.getD "")) = (j, utf16 (id'.getD "")) := h
  obtain ⟨hinstant, hid⟩ := Prod.mk.inj hpair
  have hid := utf16_injective hid
  have hsame : id = id' := by
    cases id with
    | none =>
      cases id' with
      | none => rfl
      | some s => exact absurd hid.symm (isDigest_ne_empty (hb.2 s rfl))
    | some s =>
      cases id' with
      | none => exact absurd hid (isDigest_ne_empty (ha.2 s rfl))
      | some s' => exact congrArg some hid
  rw [hinstant, hsame]

section Ledger

variable {ledger : Ledger} {charge c : LedgerEvent} {k : String}

theorem LedgerOk.empty : LedgerOk .empty := fun _ _ h => nomatch h

/-- A scope is there exactly when it has charges. -/
theorem LedgerOk.isSome_iff (h : LedgerOk ledger) : (ledger.get? k).isSome ↔ ∃ c, c ∈ chargesOf ledger k := by
  unfold chargesOf
  cases hget : ledger.get? k with
  | none => simp
  | some charges =>
    obtain ⟨c, hc⟩ := exists_mem_of_ne_nil _ (h k charges hget).2.ne_nil
    exact ⟨fun _ => ⟨c, hc⟩, fun _ => rfl⟩

theorem LedgerOk.set (h : LedgerOk ledger) (hk : isKey k = true) {charges : List LedgerEvent}
    (hcharges : ChargesOk charges) : LedgerOk (ledger.set k charges) := by
  intro k' charges' hget
  rw [Map.get?_set] at hget
  split at hget
  · next heq =>
    cases hget
    exact ⟨heq ▸ hk, hcharges⟩
  · exact h k' charges' hget

theorem charges_set (ledger : Ledger) (k k' : String) (charges : List LedgerEvent) :
    chargesOf (ledger.set k charges) k' = if k' = k then charges else chargesOf ledger k' := by
  unfold chargesOf
  rw [Map.get?_set]
  split <;> rfl

theorem chargesOk_singleton (h : ChargeOk charge) : ChargesOk [charge] where
  sorted := pairwise_singleton _ _
  ne_nil := cons_ne_nil _ _
  ok _ hc := (mem_singleton.mp hc) ▸ h

theorem ChargesOk.insertCharge {charges charges' : List LedgerEvent} (h : ChargesOk charges)
    (hcharge : ChargeOk charge) (heq : insertCharge charges charge = some charges') : ChargesOk charges' := by
  obtain ⟨hsorted, hmem⟩ := insertCharge_some h.sorted heq
  refine ⟨hsorted, ne_nil_of_mem ((hmem charge).mpr (.inl rfl)), fun c hc => ?_⟩
  rcases (hmem c).mp hc with rfl | hc
  · exact hcharge
  · exact h.ok c hc

/-- An insertion is refused exactly for a charge that is there. -/
theorem ChargesOk.insertCharge_eq_none {charges : List LedgerEvent} (h : ChargesOk charges)
    (hcharge : ChargeOk charge) : Followup.insertCharge charges charge = none ↔ charge ∈ charges := by
  rw [insertCharge_eq_none_iff h.sorted]
  constructor
  · rintro ⟨c, hc, hrank⟩
    rwa [← rank_injective (h.ok c hc) hcharge hrank]
  · exact fun hc => ⟨charge, hc, rfl⟩

/-! ## Commits -/

/-- Inserting in one scope: the charge is there afterwards, and nothing else changes. -/
theorem insertScope_spec {state : Ledger × Bool} (h : LedgerOk state.1) (hcharge : ChargeOk charge)
    {scope : RequestScope} (hkey : isKey scope.key = true) :
    LedgerOk (insertScope charge state scope).1 ∧
      (∀ k c, c ∈ chargesOf (insertScope charge state scope).1 k ↔
        k = scope.key ∧ c = charge ∨ c ∈ chargesOf state.1 k) ∧
      ((insertScope charge state scope).2 = false ↔
        state.2 = false ∧ charge ∈ chargesOf state.1 scope.key) := by
  unfold insertScope
  cases hget : state.1.get? scope.key with
  | none =>
    have hcharges : chargesOf state.1 scope.key = [] := by rw [chargesOf, hget]; rfl
    refine ⟨h.set hkey (chargesOk_singleton hcharge), fun k c => ?_, by simp [hcharges]⟩
    rw [charges_set]
    by_cases hk : k = scope.key
    · subst hk
      simp [hcharges]
    · simp [hk]
  | some existing =>
    have hcharges : chargesOf state.1 scope.key = existing := by rw [chargesOf, hget]; rfl
    have hok := (h _ _ hget).2
    dsimp only
    cases hinsert : insertCharge existing charge with
    | none =>
      have hmem := (hok.insertCharge_eq_none hcharge).mp hinsert
      refine ⟨h, fun k c => ?_, by simp [hcharges, hmem]⟩
      refine ⟨.inr, ?_⟩
      rintro (⟨rfl, rfl⟩ | hc)
      · rwa [hcharges]
      · exact hc
    | some charges =>
      have hmem : charge ∉ existing := fun hmem => by
        rw [(hok.insertCharge_eq_none hcharge).mpr hmem] at hinsert
        cases hinsert
      refine ⟨h.set hkey (hok.insertCharge hcharge hinsert), fun k c => ?_, by simp [hcharges, hmem]⟩
      rw [charges_set]
      by_cases hk : k = scope.key
      · subst hk
        rw [if_pos rfl, hcharges, (insertCharge_some hok.sorted hinsert).2]
        simp
      · simp [hk]

theorem insertScopes_spec (hcharge : ChargeOk charge) {scopes : List RequestScope}
    (hkeys : ∀ s ∈ scopes, isKey s.key = true) {state : Ledger × Bool} (h : LedgerOk state.1) :
    LedgerOk (scopes.foldl (insertScope charge) state).1 ∧
      (∀ k c, c ∈ chargesOf (scopes.foldl (insertScope charge) state).1 k ↔
        k ∈ scopes.map RequestScope.key ∧ c = charge ∨ c ∈ chargesOf state.1 k) ∧
      ((scopes.foldl (insertScope charge) state).2 = false ↔
        state.2 = false ∧ ∀ s ∈ scopes, charge ∈ chargesOf state.1 s.key) := by
  induction scopes generalizing state with
  | nil => exact ⟨h, fun k c => by simp, by simp⟩
  | cons s scopes ih =>
    obtain ⟨hok, hmem, hflag⟩ := insertScope_spec h hcharge (hkeys s mem_cons_self)
    obtain ⟨hok', hmem', hflag'⟩ := ih (fun s' hs' => hkeys s' (mem_cons_of_mem _ hs')) hok
    refine ⟨hok', fun k c => ?_, ?_⟩
    · rw [foldl_cons, hmem', hmem, map_cons, mem_cons]
      tauto
    · rw [foldl_cons, hflag', hflag]
      simp only [hmem, forall_mem_cons]
      constructor
      · rintro ⟨⟨hfalse, hs⟩, hrest⟩
        refine ⟨hfalse, hs, fun s' hs' => ?_⟩
        rcases hrest s' hs' with ⟨heq, -⟩ | hc
        · rwa [heq]
        · exact hc
      · rintro ⟨hfalse, hs, hrest⟩
        exact ⟨⟨hfalse, hs⟩, fun s' hs' => .inr (hrest s' hs')⟩

theorem LedgerOk.evictToCap (h : LedgerOk ledger) (maxKeys : Nat) (protectedKeys : List String) :
    LedgerOk (evictToCap ledger maxKeys protectedKeys) := by
  intro k charges hget
  rcases @get?_evictToCap ledger maxKeys protectedKeys k with hsame | hnone
  · exact h k charges (hsame ▸ hget)
  · rw [hnone] at hget
    cases hget

section Prune

variable {nowMs retentionMs idempotencyRetentionMs : Nat}

theorem LedgerOk.pruneLedger (h : LedgerOk ledger) (nowMs retentionMs idempotencyRetentionMs : Nat) :
    LedgerOk (pruneLedger ledger nowMs retentionMs idempotencyRetentionMs) := by
  intro k kept hget
  rw [get?_pruneLedger, Option.bind_eq_some_iff] at hget
  obtain ⟨charges, hcharges, hkept⟩ := hget
  obtain ⟨rfl, hne⟩ := keptOf_some hkept
  obtain ⟨hkey, hok⟩ := h k charges hcharges
  exact ⟨hkey, hok.sorted.sublist filter_sublist, hne, fun c hc => hok.ok c (mem_of_mem_filter hc)⟩

theorem chargesOf_pruneLedger (k : String) :
    chargesOf (pruneLedger ledger nowMs retentionMs idempotencyRetentionMs) k =
      (chargesOf ledger k).filter (isKept nowMs retentionMs idempotencyRetentionMs) := by
  unfold chargesOf
  rw [get?_pruneLedger]
  cases ledger.get? k with
  | none => rfl
  | some charges =>
    rw [Option.bind_some, keptOf, Option.filter_some, Option.getD_some]
    split
    · rfl
    · next h =>
      rw [decide_eq_true_eq, ne_eq, not_not] at h
      rw [h]
      rfl

theorem size_pruneLedger :
    (pruneLedger ledger nowMs retentionMs idempotencyRetentionMs).size ≤ ledger.size := by
  rw [Map.size, Map.size, ← length_map Prod.fst, ← @length_map _ _ ledger.entries Prod.fst]
  refine (subperm_of_subset (Map.nodup _) fun k hk => ?_).length_le
  obtain ⟨⟨k', kept⟩, hmem, rfl⟩ := mem_map.mp hk
  rw [Map.mem_entries_iff, get?_pruneLedger, Option.bind_eq_some_iff] at hmem
  obtain ⟨charges, hcharges, -⟩ := hmem
  exact mem_map.mpr ⟨(k', charges), Map.mem_entries_iff.mpr hcharges, rfl⟩

end Prune

end Ledger

/-! ## Reading -/

theorem safeNatural?_le {v : Value} {n : Nat} (h : safeNatural? v = some n) : n ≤ maxSafe := by
  cases v with
  | count m =>
    rw [safeNatural?] at h
    split at h
    · next hm => cases h; exact hm
    · cases h
  | number x => exact Number.safeNat?_le h
  | _ => cases h

variable {raw : Value} {version maxKeys : Nat} {charges : List LedgerEvent} {ledger' : Ledger}
  {entry : String × List LedgerEvent}

theorem parseEvent_ok {c : LedgerEvent} (h : parseEvent raw version = .ok c) :
    ChargeOk c := by
  unfold parseEvent at h
  split at h
  · cases hn : safeNatural? raw with
    | none => rw [hn] at h; cases h
    | some n =>
      rw [hn] at h
      cases h
      exact ⟨safeNatural?_le hn, fun id hid => nomatch hid⟩
  · cases raw with
    | object fields =>
      dsimp only at h
      split at h
      · cases h
      · cases hn : safeNatural? ((Value.object fields).get "at") with
        | none => rw [hn] at h; cases h
        | some n =>
          rw [hn] at h
          dsimp only at h
          split at h
          · cases h
            exact ⟨safeNatural?_le hn, fun id hid => nomatch hid⟩
          · next id _ =>
            split at h
            · next hid =>
              cases h
              refine ⟨safeNatural?_le hn, fun id' hid' => ?_⟩
              cases hid'
              exact hid
            · cases h
          · cases h
    | _ => cases h

/-- The charges read so far. -/
structure ReadSoFar (charges : List LedgerEvent) : Prop where
  sorted : Sorted charges
  ok : ∀ c ∈ charges, ChargeOk c

theorem parseNext_ok {charges' : List LedgerEvent}
    (h : ReadSoFar charges) (heq : parseNext version charges raw = .ok charges') :
    ReadSoFar charges' ∧ charges' ≠ [] := by
  obtain ⟨c, hc, heq⟩ := Except.of_bind_ok heq
  have hok := parseEvent_ok hc
  split at heq
  · cases heq
  · next hlast =>
    cases heq
    refine ⟨⟨?_, fun c' hc' => ?_⟩, by simp⟩
    · rw [Sorted, pairwise_append]
      refine ⟨h.sorted, pairwise_singleton _ _, fun a ha b hb => ?_⟩
      obtain rfl := mem_singleton.mp hb
      rcases eq_nil_or_concat charges with rfl | ⟨init, last, rfl⟩
      · cases ha
      · rw [concat_eq_append] at *
        rw [List.getLast?_concat, Option.any_some, bne_iff_ne, not_not, compareCharges_eq_lt] at hlast
        rcases mem_append.mp ha with ha | ha
        · have hlt := (pairwise_append.mp h.sorted).2.2 a ha last (mem_singleton_self _)
          exact hlt.trans hlast
        · rwa [mem_singleton.mp ha]
    · rcases mem_append.mp hc' with hc' | hc'
      · exact h.ok c' hc'
      · rwa [mem_singleton.mp hc']

theorem parseNext_foldlM {event : Value} {events : List Value}
    (h : (event :: events).foldlM (parseNext version) [] = .ok charges) : ChargesOk charges := by
  rw [foldlM_cons] at h
  obtain ⟨first, hfirst, h⟩ := Except.of_bind_ok h
  have hstart : ReadSoFar [] := ⟨List.Pairwise.nil, fun c hc => nomatch hc⟩
  have hall : ReadSoFar charges ∧ charges ≠ [] :=
    Except.foldlM_invariant (fun cs raw cs' hcs hstep => parseNext_ok hcs.1 hstep)
      (parseNext_ok hstart hfirst) h
  exact ⟨hall.1.sorted, hall.2, hall.1.ok⟩

theorem parseScope_ok {ledger : Ledger} {element : Value} (h : LedgerOk ledger)
    (heq : parseScope version ledger element = .ok ledger') :
    LedgerOk ledger' ∧ ledger'.size = ledger.size + 1 := by
  unfold parseScope at heq
  split at heq
  · split at heq
    · cases heq
    · split at heq
      · next key _ =>
        split at heq
        · cases heq
        · next hkey =>
          split at heq
          · cases heq
          · next hfresh =>
            split at heq
            · obtain ⟨charges, hcharges, heq⟩ := Except.of_bind_ok heq
              cases heq
              refine ⟨h.set (by simpa using hkey) (parseNext_foldlM hcharges), ?_⟩
              rw [Bool.not_eq_true, Map.has_eq_false_iff] at hfresh
              exact Map.size_set_of_none hfresh
            · cases heq
      · cases heq
  · cases heq

theorem parseScopes_ok {scopes : List Value} {ledger : Ledger} (h : LedgerOk ledger)
    (heq : scopes.foldlM (parseScope version) ledger = .ok ledger') :
    LedgerOk ledger' ∧ ledger'.size = ledger.size + scopes.length := by
  induction scopes generalizing ledger with
  | nil => cases heq; exact ⟨h, rfl⟩
  | cons element scopes ih =>
    rw [foldlM_cons] at heq
    obtain ⟨next, hnext, heq⟩ := Except.of_bind_ok heq
    obtain ⟨hok, hsize⟩ := parseScope_ok h hnext
    obtain ⟨hok', hsize'⟩ := ih hok heq
    refine ⟨hok', ?_⟩
    rw [hsize', hsize, length_cons]
    omega

theorem parseLedger_ok {raw : String} {ledger : Ledger}
    (h : parseLedger raw maxKeys = .ok ledger) : LedgerOk ledger ∧ ledger.size ≤ maxKeys := by
  unfold parseLedger at h
  split at h
  · cases h
  · split at h
    · split at h
      · cases h
      · split at h
        · cases h
        · split at h
          · cases h
          · split at h
            · split at h
              · cases h
              · next hcap =>
                obtain ⟨hok, hsize⟩ := parseScopes_ok .empty h
                refine ⟨hok, ?_⟩
                have hempty : (Map.empty : Ledger).size = 0 := rfl
                omega
            · cases h
    · cases h

/-! ## Writing -/

theorem maxSafe_lt : maxSafe < 2 ^ 53 := by decide

theorem plain_eventValue {c : LedgerEvent} (h : ChargeOk c) : Json.Plain (eventValue c) := by
  have hinstant : c.instant < 2 ^ 53 := h.1.trans_lt maxSafe_lt
  unfold eventValue
  cases c.id with
  | none => exact .object (by simp) (by simpa using .count hinstant)
  | some id => exact .object (by simp) (by simpa using ⟨.count hinstant, .string id⟩)

theorem plain_scopeValue (h : ∀ c ∈ entry.2, ChargeOk c) :
    Json.Plain (scopeValue entry) := by
  have hevents : ∀ v ∈ entry.2.map eventValue, Json.Plain v := by
    intro v hv
    obtain ⟨c, hc, rfl⟩ := mem_map.mp hv
    exact plain_eventValue (h c hc)
  exact .object (by simp) (by simpa using ⟨.string _, .array hevents⟩)

theorem mem_sortedScopes {ledger : Ledger} (h : LedgerOk ledger) {entry : String × List LedgerEvent} :
    entry ∈ sortedScopes ledger ↔ ledger.get? entry.1 = some entry.2 := by
  rw [sortedScopes, mem_insertionSort, mem_filter, Map.mem_entries_iff]
  refine ⟨fun hmem => hmem.1, fun hget => ⟨hget, ?_⟩⟩
  simpa using (h _ _ hget).2.ne_nil

theorem plain_ledgerValue {ledger : Ledger} (h : LedgerOk ledger) : Json.Plain (ledgerValue ledger) := by
  have hscopes : ∀ v ∈ (sortedScopes ledger).map scopeValue, Json.Plain v := by
    intro v hv
    obtain ⟨entry, hentry, rfl⟩ := mem_map.mp hv
    exact plain_scopeValue (h _ _ ((mem_sortedScopes h).mp hentry)).2.ok
  exact .object (by simp) (by simpa using ⟨.count (by decide), .array hscopes⟩)

theorem parseEvent_eventValue {c : LedgerEvent} (h : ChargeOk c) :
    parseEvent (eventValue c) ledgerVersion = .ok c := by
  obtain ⟨n, id⟩ := c
  have hsafe : safeNatural? (.count n) = some n := if_pos h.1
  cases id with
  | none => simp [parseEvent, eventValue, ledgerVersion, ledgerVersionLegacy, Value.get, lookup_cons, lookup_nil, hsafe]
  | some id =>
    have hid : isDigest id = true := h.2 id rfl
    simp [parseEvent, eventValue, ledgerVersion, ledgerVersionLegacy, Value.get, lookup_cons, hsafe, hid]

/-- Ascending charges are read back behind those read so far. -/
theorem parseEvents_eventValues {done charges : List LedgerEvent} (h : Sorted (done ++ charges))
    (hok : ∀ c ∈ charges, ChargeOk c) :
    (charges.map eventValue).foldlM (parseNext ledgerVersion) done = .ok (done ++ charges) := by
  induction charges generalizing done with
  | nil => rw [append_nil]; rfl
  | cons c charges ih =>
    have hnext : parseNext ledgerVersion done (eventValue c) = .ok (done ++ [c]) := by
      rw [parseNext, parseEvent_eventValue (hok c mem_cons_self)]
      refine if_neg ?_
      rw [Bool.not_eq_true, Option.any_eq_false]
      intro last hlast
      have hlt := (pairwise_append.mp h).2.2 last (List.mem_of_getLast? hlast) c mem_cons_self
      rw [compareCharges_eq_lt.mpr hlt]
      rfl
    rw [map_cons, foldlM_cons, hnext]
    have hrest := @ih (done ++ [c]) (by rwa [append_assoc, singleton_append])
      fun c' hc' => hok c' (mem_cons_of_mem _ hc')
    rw [append_assoc, singleton_append] at hrest
    exact hrest

theorem parseScope_scopeValue {ledger : Ledger}
    (hkey : isKey entry.1 = true) (hcharges : ChargesOk entry.2) (hfresh : ledger.get? entry.1 = none) :
    parseScope ledgerVersion ledger (scopeValue entry) = .ok (ledger.set entry.1 entry.2) := by
  obtain ⟨k, charges⟩ := entry
  have hread := @parseEvents_eventValues [] charges hcharges.sorted hcharges.ok
  have hhas : ledger.has k = false := Map.has_eq_false_iff.mpr hfresh
  cases charges with
  | nil => exact absurd rfl hcharges.ne_nil
  | cons c charges =>
    have hne : ("events" == "key") = false := rfl
    rw [map_cons] at hread
    unfold parseScope scopeValue
    dsimp only
    rw [if_neg (by simp [scopeKeys])]
    simp only [Value.get, lookup_cons, beq_self_eq_true, hne, Option.getD_some, hkey, hhas, map_cons,
      hread, Bool.true_eq_false, Bool.false_eq_true, if_false]
    rfl

/-- The scopes of a file are read back into a ledger that holds exactly them. -/
theorem parseScopes_scopeValues {scopes : List (String × List LedgerEvent)} {ledger : Ledger}
    (hkeys : ((ledger.entries ++ scopes).map Prod.fst).Nodup)
    (hok : ∀ e ∈ scopes, isKey e.1 = true ∧ ChargesOk e.2) :
    ∃ l, (scopes.map scopeValue).foldlM (parseScope ledgerVersion) ledger = .ok l ∧
      l.entries = ledger.entries ++ scopes := by
  induction scopes generalizing ledger with
  | nil => exact ⟨ledger, rfl, by rw [append_nil]⟩
  | cons e scopes ih =>
    obtain ⟨hkey, hcharges⟩ := hok e mem_cons_self
    have hfresh := Map.not_mem_of_nodup hkeys
    have hentries := Map.entries_set_of_fresh rfl hfresh e.2
    have hset : parseScope ledgerVersion ledger (scopeValue e) = .ok (ledger.set e.1 e.2) :=
      parseScope_scopeValue hkey hcharges (Map.get?_of_fresh rfl hfresh)
    obtain ⟨l, hl, hle⟩ := @ih (ledger.set e.1 e.2)
      (by rw [hentries, append_assoc, singleton_append]; exact hkeys)
      fun e' he' => hok e' (mem_cons_of_mem _ he')
    refine ⟨l, ?_, by rw [hle, hentries, append_assoc, singleton_append]⟩
    rw [map_cons, foldlM_cons, hset]
    exact hl

/-- A ledger within the cap is read back from its file. -/
theorem parseLedger_serializeLedger {ledger : Ledger} (h : LedgerOk ledger)
    (hsize : ledger.size ≤ maxKeys) :
    ∃ l, parseLedger (serializeLedger ledger) maxKeys = .ok l ∧ ∀ k, l.get? k = ledger.get? k := by
  have hparse : Json.parse (serializeLedger ledger) = some (ledgerValue ledger) :=
    Json.parse_stringify (plain_ledgerValue h) (by decide)
  have hkeys : ((sortedScopes ledger).map Prod.fst).Nodup :=
    ((perm_insertionSort _ _).map Prod.fst).nodup_iff.mpr
      (ledger.nodup.sublist (filter_sublist.map _))
  have hlength : (sortedScopes ledger).length ≤ maxKeys := by
    refine le_trans ?_ hsize
    rw [sortedScopes, length_insertionSort]
    exact length_filter_le _ _
  obtain ⟨l, hl, hentries⟩ := @parseScopes_scopeValues (sortedScopes ledger) .empty hkeys
    fun e he => h _ _ ((mem_sortedScopes h).mp he)
  refine ⟨l, ?_, fun k => ?_⟩
  · have hne : ("scopes" == "version") = false := rfl
    rw [parseLedger, hparse]
    unfold ledgerValue
    dsimp only
    rw [if_neg (by simp [snapshotKeys])]
    simp only [Value.get, lookup_cons, beq_self_eq_true, hne, Option.getD_some]
    rw [safeNatural?, if_pos (by decide)]
    dsimp only
    rw [if_neg (by decide), if_neg (by rw [length_map]; omega)]
    exact hl
  · apply Option.ext
    intro charges
    rw [← Map.mem_entries_iff, hentries]
    exact @mem_sortedScopes ledger h (k, charges)

theorem pairwise_sortedScopes (ledger : Ledger) :
    (sortedScopes ledger).Pairwise fun a b => utf16 a.1 < utf16 b.1 := by
  let before := fun a b : String × List LedgerEvent => (!strLt b.1 a.1) = true
  have hiff : ∀ a b : String × List LedgerEvent, before a b ↔ utf16 a.1 ≤ utf16 b.1 := by
    intro a b
    simp [before, strLt]
  have hsorted : (sortedScopes ledger).Pairwise before :=
    @pairwise_insertionSort _ before _
      ⟨fun a b => by rw [hiff, hiff]; exact le_total _ _⟩
      ⟨fun a b c => by rw [hiff, hiff, hiff]; exact le_trans⟩ _
  have hkeys : ((sortedScopes ledger).map Prod.fst).Nodup :=
    ((perm_insertionSort _ _).map Prod.fst).nodup_iff.mpr
      (ledger.nodup.sublist (filter_sublist.map _))
  have hne : (sortedScopes ledger).Pairwise fun a b => a.1 ≠ b.1 := pairwise_map.mp hkeys
  refine hsorted.imp₂ (fun a b hle hne => ?_) hne
  exact lt_of_le_of_ne ((hiff a b).mp hle) fun heq => hne (utf16_injective heq)

/-- The file depends on the scopes and their charges only. -/
theorem serializeLedger_congr {ledger : Ledger} (h : ∀ k, ledger.get? k = ledger'.get? k) :
    serializeLedger ledger = serializeLedger ledger' := by
  have hentries : ledger.entries.Perm ledger'.entries := by
    refine (perm_ext_iff_of_nodup (.of_map _ ledger.nodup) (.of_map _ ledger'.nodup)).mpr fun e => ?_
    rw [Map.mem_entries_iff, Map.mem_entries_iff, h]
  have hscopes : sortedScopes ledger = sortedScopes ledger' := by
    refine List.Perm.eq_of_pairwise (fun a b _ _ hab hba => absurd hba (lt_asymm hab))
      (pairwise_sortedScopes ledger) (pairwise_sortedScopes ledger') ?_
    calc (sortedScopes ledger).Perm (ledger.entries.filter fun e => e.2 ≠ []) := perm_insertionSort _ _
      _ |>.Perm (ledger'.entries.filter fun e => e.2 ≠ []) := hentries.filter _
      _ |>.Perm (sortedScopes ledger') := (perm_insertionSort _ _).symm
  rw [serializeLedger, serializeLedger, ledgerValue, ledgerValue, hscopes]

end PrReviewer.Followup
