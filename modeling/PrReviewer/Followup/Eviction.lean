import PrReviewer.Followup.Replay

/-!
# What the cap takes from a ledger

A commit that grows the ledger above the cap evicts scopes, and prunes after that. The order of eviction
looks at charges that the pruning is about to drop: a scope whose identities have all expired counts as one
with an identity. So it can outlive a live scope (`evicts_live`).
-/

open Js

namespace PrReviewer.Followup

/-! ## The place of a scope -/

/-- In a sorted list the first `n` entries are those with fewer than `n` others before them. -/
theorem mem_take_iff {α : Type} {le : α → α → Bool} [DecidableEq α] {l : List α}
    (hsorted : l.Pairwise (le · · = true)) (hnodup : l.Nodup)
    (hanti : ∀ a ∈ l, ∀ b ∈ l, le a b = true → le b a = true → a = b) {x : α} (hx : x ∈ l) (n : Nat) :
    x ∈ l.take n ↔ l.countP (fun y => y ≠ x && le y x) < n := by
  obtain ⟨pre, post, rfl⟩ := List.append_of_mem hx
  rw [List.pairwise_append, List.pairwise_cons] at hsorted
  rw [List.nodup_append, List.nodup_cons] at hnodup
  have hpre : x ∉ pre := fun h => hnodup.2.2 x h x List.mem_cons_self rfl
  have hbefore : pre.countP (fun y => y ≠ x && le y x) = pre.length := by
    refine List.countP_eq_length.mpr fun y hy => ?_
    have hne : y ≠ x := fun h => hpre (h ▸ hy)
    simp [hne, hsorted.2.2 y hy x List.mem_cons_self]
  have hbehind : (x :: post).countP (fun y => y ≠ x && le y x) = 0 := by
    refine List.countP_eq_zero.mpr fun y hy => ?_
    rcases List.mem_cons.mp hy with rfl | hy
    · simp
    · rw [Bool.and_eq_true, decide_eq_true_eq]
      rintro ⟨hne, hle⟩
      exact hne (hanti y (by simp [hy]) x (by simp) hle (hsorted.2.1.1 y hy))
  rw [List.countP_append, hbefore, hbehind, Nat.add_zero]
  constructor
  · intro hmem
    by_contra hn
    rw [List.take_append_of_le_length (Nat.not_lt.mp hn)] at hmem
    exact hpre (List.mem_of_mem_take hmem)
  · intro hn
    obtain ⟨k, rfl⟩ := Nat.exists_eq_add_of_lt hn
    rw [List.take_append, show pre.length + k + 1 - pre.length = k + 1 by omega]
    simp

section Order

variable {ledger : Ledger} {maxKeys : Nat} {protectedKeys : List String}

/-- The scopes that a commit may evict. -/
def unprotected (ledger : Ledger) (protectedKeys : List String) : List (String × List LedgerEvent) :=
  ledger.entries.filter fun e => !protectedKeys.contains e.1

/-- The number of scopes that the commit may evict before this one. -/
def placeOf (ledger : Ledger) (protectedKeys : List String) (entry : String × List LedgerEvent) : Nat :=
  (unprotected ledger protectedKeys).countP fun e => e ≠ entry && evictedBefore e entry

/-- The number of scopes above the cap. -/
def excess (ledger : Ledger) (maxKeys : Nat) : Nat := ledger.size - maxKeys

/-- The order of eviction as an order of keys: identities last, then the last activity, then the name. -/
def evictionKey (e : String × List LedgerEvent) : Bool ×ₗ Nat ×ₗ List Nat :=
  toLex (hasIdentity e.2, toLex (lastAt e.2, utf16 e.1))

variable {a b : String × List LedgerEvent} {k : String} {charges : List LedgerEvent} {l : Ledger}

theorem evictedBefore_iff :
    evictedBefore a b = true ↔ evictionKey a ≤ evictionKey b := by
  rw [evictionKey, evictionKey, Prod.Lex.toLex_le_toLex, Prod.Lex.toLex_le_toLex, evictedBefore]
  split
  · next hne =>
    cases ha : hasIdentity a.2 <;> cases hb : hasIdentity b.2 <;> simp_all
  · next heq =>
    rw [ne_eq, not_not] at heq
    split
    · next hne => simp [heq, hne, lt_iff_le_and_ne]
    · next hlast =>
      rw [ne_eq, not_not] at hlast
      simp [heq, hlast, strLt]

theorem nodup_unprotected (ledger : Ledger) (protectedKeys : List String) :
    ((unprotected ledger protectedKeys).map Prod.fst).Nodup :=
  ledger.nodup.sublist (List.filter_sublist.map _)

theorem mem_unprotected :
    (k, charges) ∈ unprotected ledger protectedKeys ↔
      ledger.get? k = some charges ∧ k ∉ protectedKeys := by
  rw [unprotected, List.mem_filter, Map.mem_entries_iff]
  simp

/-- Unprotected scopes that stand before each other are the same. -/
theorem evictedBefore_antisymm
    (ha : a ∈ unprotected ledger protectedKeys) (hb : b ∈ unprotected ledger protectedKeys)
    (hab : evictedBefore a b = true) (hba : evictedBefore b a = true) : a = b := by
  have hkey := toLex.injective (le_antisymm (evictedBefore_iff.mp hab) (evictedBefore_iff.mp hba))
  have hname := toLex.injective (Prod.mk.inj hkey).2
  exact List.inj_on_of_nodup_map (nodup_unprotected ledger protectedKeys) ha hb
    (utf16_injective (Prod.mk.inj hname).2)

/-- The scopes in the order of their eviction. -/
def evictionOrder (ledger : Ledger) (protectedKeys : List String) : List (String × List LedgerEvent) :=
  (unprotected ledger protectedKeys).insertionSort fun a b => evictedBefore a b

theorem perm_evictionOrder (ledger : Ledger) (protectedKeys : List String) :
    (evictionOrder ledger protectedKeys).Perm (unprotected ledger protectedKeys) :=
  List.perm_insertionSort _ _

theorem sorted_evictionOrder (ledger : Ledger) (protectedKeys : List String) :
    (evictionOrder ledger protectedKeys).Pairwise (evictedBefore · · = true) := by
  have : Std.Total fun a b : String × List LedgerEvent => evictedBefore a b = true :=
    ⟨fun a b => by rw [evictedBefore_iff, evictedBefore_iff]; exact le_total _ _⟩
  have : IsTrans (String × List LedgerEvent) fun a b => evictedBefore a b = true :=
    ⟨fun a b c hab hbc => by rw [evictedBefore_iff] at *; exact hab.trans hbc⟩
  exact List.pairwise_insertionSort _ _

/-! ## The loop -/

theorem size_delete
    (hk : l.get? k = some charges) : (l.delete k).size + 1 = l.size := by
  have hmem : k ∈ l.keys := List.mem_map_of_mem (Map.mem_entries_iff.mpr hk)
  have hkeys : (l.delete k).keys = l.keys.erase k := by
    rw [Map.keys, Map.keys, List.Nodup.erase_eq_filter l.nodup, List.filter_map]
    refine congrArg (List.map Prod.fst) (List.filter_congr fun e _ => ?_)
    simp [bne, beq_eq_decide]
  have hlength := congrArg List.length hkeys
  rw [List.length_erase_of_mem hmem, Map.keys, Map.keys, List.length_map, List.length_map] at hlength
  have hpos := List.length_pos_of_mem hmem
  rw [Map.keys, List.length_map] at hpos
  rw [Map.size, Map.size, hlength]
  omega

/-- The loop deletes the first scopes of its list, as many as are above the cap. -/
theorem get?_evictScopes_take {es : List (String × List LedgerEvent)}
    (hnodup : (es.map Prod.fst).Nodup) (hes : ∀ e ∈ es, l.get? e.1 = some e.2) (k : String) :
    (es.foldl (evictScope maxKeys) l).get? k =
      if k ∈ (es.take (excess l maxKeys)).map Prod.fst then none else l.get? k := by
  induction es generalizing l with
  | nil => simp
  | cons e es ih =>
    rw [List.map_cons, List.nodup_cons] at hnodup
    rw [List.foldl_cons, evictScope]
    by_cases hsize : l.size ≤ maxKeys
    · have hnone : excess l maxKeys = 0 := Nat.sub_eq_zero_of_le hsize
      rw [if_pos hsize, ih hnodup.2 fun e' he' => hes e' (List.mem_cons_of_mem _ he'), hnone]
      simp
    · have hdelete := size_delete (hes e List.mem_cons_self)
      have hexcess : excess l maxKeys = excess (l.delete e.1) maxKeys + 1 := by
        unfold excess
        omega
      have hrest : ∀ e' ∈ es, (l.delete e.1).get? e'.1 = some e'.2 := by
        intro e' he'
        have hne : e'.1 ≠ e.1 := fun heq => hnodup.1 (heq ▸ List.mem_map_of_mem he')
        rw [Map.get?_delete, if_neg hne]
        exact hes e' (List.mem_cons_of_mem _ he')
      rw [if_neg hsize, ih hnodup.2 hrest, hexcess, List.take_succ_cons, List.map_cons,
        Map.get?_delete]
      by_cases hk : k = e.1
      · simp [hk]
      · simp [hk]

/-- A scope is evicted exactly when its place is below the excess. -/
theorem get?_evictToCap_eq_none
    (hk : ledger.get? k = some charges) :
    (evictToCap ledger maxKeys protectedKeys).get? k = none ↔
      k ∉ protectedKeys ∧ placeOf ledger protectedKeys (k, charges) < excess ledger maxKeys := by
  have hperm := perm_evictionOrder ledger protectedKeys
  have hnodup : ((evictionOrder ledger protectedKeys).map Prod.fst).Nodup :=
    (hperm.map Prod.fst).nodup_iff.mpr (nodup_unprotected ledger protectedKeys)
  have hloop : (evictToCap ledger maxKeys protectedKeys).get? k =
      if k ∈ ((evictionOrder ledger protectedKeys).take (excess ledger maxKeys)).map Prod.fst then none
      else ledger.get? k := by
    unfold evictToCap
    split
    · next hsize =>
      have hnone : excess ledger maxKeys = 0 := Nat.sub_eq_zero_of_le hsize
      simp [hnone]
    · refine get?_evictScopes_take hnodup (fun e he => ?_) k
      exact (mem_unprotected.mp (hperm.mem_iff.mp he)).1
  have hmem : k ∈ ((evictionOrder ledger protectedKeys).take (excess ledger maxKeys)).map Prod.fst ↔
      k ∉ protectedKeys ∧ placeOf ledger protectedKeys (k, charges) < excess ledger maxKeys := by
    have hplace : (k, charges) ∈ evictionOrder ledger protectedKeys →
        ((k, charges) ∈ (evictionOrder ledger protectedKeys).take (excess ledger maxKeys) ↔
          placeOf ledger protectedKeys (k, charges) < excess ledger maxKeys) := by
      intro hin
      rw [mem_take_iff (sorted_evictionOrder ledger protectedKeys) hnodup.of_map
        (fun a ha b hb => evictedBefore_antisymm (hperm.mem_iff.mp ha) (hperm.mem_iff.mp hb)) hin,
        placeOf, hperm.countP_eq]
    constructor
    · intro h
      obtain ⟨⟨k', charges'⟩, hin, rfl⟩ := List.mem_map.mp h
      have hun := mem_unprotected.mp (hperm.mem_iff.mp (List.mem_of_mem_take hin))
      obtain rfl := Option.some.inj (hk.symm.trans hun.1)
      exact ⟨hun.2, (hplace (List.mem_of_mem_take hin)).mp hin⟩
    · rintro ⟨hfree, hlt⟩
      have hin := hperm.mem_iff.mpr (mem_unprotected.mpr ⟨hk, hfree⟩)
      exact List.mem_map.mpr ⟨_, (hplace hin).mpr hlt, rfl⟩
  rw [hloop, ← hmem]
  split
  · next h => exact iff_of_true rfl h
  · next h => exact iff_of_false (by simp [hk]) h

end Order

/-! ## Commits -/

section Commit

variable {options : RateLimitOptions} {requestDigest : String → String} {file : Option String}

/-- The scope has a charge that the pruning keeps. -/
def isLive (options : RateLimitOptions) (now : Nat) (charges : List LedgerEvent) : Bool :=
  charges.any (isKept now options.retentionMs options.idempotencyRetentionMs)

/-- The scope has an identity that the pruning keeps. -/
def hasLiveIdentity (options : RateLimitOptions) (now : Nat) (charges : List LedgerEvent) : Bool :=
  charges.any fun c => c.id ≠ none && isKept now options.retentionMs options.idempotencyRetentionMs c

/-- The eviction that leaves `after` of the ledger `before` takes a live scope only if the ledger were
above the cap even after pruning, and a scope with a live identity only if no unprotected scope without one
is left. -/
structure GivesUpLast (options : RateLimitOptions) (now : Nat) (protectedKeys : List String)
    (before after : Ledger) : Prop where
  live : ∀ k charges, before.get? k = some charges → isLive options now charges = true →
    after.get? k = none →
    options.maxKeys < (pruneLedger before now options.retentionMs options.idempotencyRetentionMs).size
  identity : ∀ k charges, before.get? k = some charges → hasLiveIdentity options now charges = true →
    after.get? k = none → ∀ k' charges', after.get? k' = some charges' → k' ∉ protectedKeys →
      hasLiveIdentity options now charges' = true

/-- A live scope among the first ones to evict, as many as are above the cap, means that more scopes are
live than fit; and if it has a live identity, then every scope whose identities have all expired is among
the first ones too. -/
def Ordered (options : RateLimitOptions) (now : Nat) (protectedKeys : List String) (ledger : Ledger) :
    Prop :=
  ∀ e ∈ unprotected ledger protectedKeys, isLive options now e.2 = true →
    placeOf ledger protectedKeys e < excess ledger options.maxKeys →
      options.maxKeys < ledger.values.countP (isLive options now) ∧
        (hasLiveIdentity options now e.2 = true → ∀ e' ∈ unprotected ledger protectedKeys,
          hasIdentity e'.2 = true → hasLiveIdentity options now e'.2 = false →
            placeOf ledger protectedKeys e' < excess ledger options.maxKeys)

instance (options : RateLimitOptions) (now : Nat) (protectedKeys : List String) (ledger : Ledger) :
    Decidable (Ordered options now protectedKeys ledger) :=
  inferInstanceAs (Decidable (∀ e ∈ unprotected ledger protectedKeys, _ → _ → _ ∧ (_ → ∀ e' ∈ _, _)))

variable {now : Nat} {charges : List LedgerEvent}

theorem isLive_of_hasLiveIdentity
    (h : hasLiveIdentity options now charges = true) : isLive options now charges = true := by
  obtain ⟨c, hc, hkept⟩ := List.any_eq_true.mp h
  exact List.any_eq_true.mpr ⟨c, hc, (Bool.and_eq_true _ _ ▸ hkept).2⟩

theorem hasIdentity_of_hasLiveIdentity
    (h : hasLiveIdentity options now charges = true) : hasIdentity charges = true := by
  obtain ⟨c, hc, hkept⟩ := List.any_eq_true.mp h
  exact List.any_eq_true.mpr ⟨c, hc, (Bool.and_eq_true _ _ ▸ hkept).1⟩

/-- The pruned ledger has the live scopes. -/
theorem size_pruneLedger_eq (ledger : Ledger) (now : Nat) :
    (pruneLedger ledger now options.retentionMs options.idempotencyRetentionMs).size =
      ledger.values.countP (isLive options now) := by
  have hnodup : ((ledger.entries.filter fun e => isLive options now e.2).map Prod.fst).Nodup :=
    ledger.nodup.sublist (List.filter_sublist.map _)
  have hperm : (pruneLedger ledger now options.retentionMs options.idempotencyRetentionMs).keys.Perm
      ((ledger.entries.filter fun e => isLive options now e.2).map Prod.fst) := by
    refine (List.perm_ext_iff_of_nodup (Map.nodup _) hnodup).mpr fun k => ?_
    simp only [List.mem_map, Prod.exists, List.mem_filter, Map.mem_entries_iff,
      get?_pruneLedger, exists_and_right, exists_eq_right, Option.bind_eq_some_iff]
    constructor
    · rintro ⟨kept, charges, hcharges, hkept⟩
      obtain ⟨rfl, hne⟩ := keptOf_some hkept
      obtain ⟨c, hc⟩ := List.exists_mem_of_ne_nil _ hne
      rw [List.mem_filter] at hc
      exact ⟨charges, hcharges, List.any_eq_true.mpr ⟨c, hc⟩⟩
    · rintro ⟨charges, hcharges, hlive⟩
      obtain ⟨c, hc⟩ := List.any_eq_true.mp hlive
      refine ⟨_, charges, hcharges, Option.filter_eq_some_iff.mpr ⟨rfl, ?_⟩⟩
      simpa using ⟨c, hc⟩
  have hlength := hperm.length_eq
  rw [Map.keys, List.length_map, List.length_map] at hlength
  rw [Map.size, hlength, Map.values, List.countP_map, List.countP_eq_length_filter]
  rfl

/-- A scope without any identity stands before one with an identity. -/
theorem placeOf_lt {ledger : Ledger} {protectedKeys : List String} {a b : String × List LedgerEvent}
    (ha : a ∈ unprotected ledger protectedKeys) (hida : hasIdentity a.2 = false)
    (hidb : hasIdentity b.2 = true) :
    placeOf ledger protectedKeys a < placeOf ledger protectedKeys b := by
  have hlt : evictionKey a < evictionKey b := by
    rw [evictionKey, evictionKey, Prod.Lex.toLex_lt_toLex, hida, hidb]
    exact .inl Bool.false_lt_true
  have hmono : ∀ e, (e ≠ a && evictedBefore e a) = true → (e ≠ b && evictedBefore e b) = true := by
    intro e he
    rw [Bool.and_eq_true, decide_eq_true_eq, evictedBefore_iff] at he ⊢
    refine ⟨?_, he.2.trans hlt.le⟩
    rintro rfl
    exact not_lt.mpr he.2 hlt
  have hself : (a ≠ b && evictedBefore a b) = true := by
    rw [Bool.and_eq_true, decide_eq_true_eq, evictedBefore_iff]
    exact ⟨fun h => lt_irrefl _ (h ▸ hlt), hlt.le⟩
  obtain ⟨pre, post, hsplit⟩ := List.append_of_mem ha
  rw [placeOf, placeOf, hsplit, List.countP_append, List.countP_append,
    List.countP_cons_of_neg (by simp),
    List.countP_cons_of_pos (p := fun e => e ≠ b && evictedBefore e b) hself]
  have hpre := List.countP_mono_left (l := pre) fun e _ => hmono e
  have hpost := List.countP_mono_left (l := post) fun e _ => hmono e
  omega

theorem givesUpLast_evictToCap_iff {ledger : Ledger} {protectedKeys : List String} :
    GivesUpLast options now protectedKeys ledger (evictToCap ledger options.maxKeys protectedKeys) ↔
      Ordered options now protectedKeys ledger := by
  constructor
  · rintro h ⟨k, charges⟩ he hlive hplace
    obtain ⟨hk, hfree⟩ := mem_unprotected.mp he
    have hgone := (get?_evictToCap_eq_none hk).mpr ⟨hfree, hplace⟩
    refine ⟨by rw [← size_pruneLedger_eq]; exact h.live k charges hk hlive hgone, ?_⟩
    rintro hidentity ⟨k', charges'⟩ he' - hexpired
    obtain ⟨hk', hfree'⟩ := mem_unprotected.mp he'
    by_contra hplace'
    have hleft : (evictToCap ledger options.maxKeys protectedKeys).get? k' = some charges' := by
      rcases @get?_evictToCap ledger options.maxKeys protectedKeys k' with hsame | hnone
      · rw [hsame, hk']
      · exact absurd ((get?_evictToCap_eq_none hk').mp hnone).2 hplace'
    have hsome := h.identity k charges hk hidentity hgone k' charges' hleft hfree'
    rw [hexpired] at hsome
    cases hsome
  · intro h
    constructor
    · intro k charges hk hlive hgone
      obtain ⟨hfree, hplace⟩ := (get?_evictToCap_eq_none hk).mp hgone
      rw [size_pruneLedger_eq]
      exact (h _ (mem_unprotected.mpr ⟨hk, hfree⟩) hlive hplace).1
    · intro k charges hk hidentity hgone k' charges' hleft hfree'
      obtain ⟨hfree, hplace⟩ := (get?_evictToCap_eq_none hk).mp hgone
      have hk' : ledger.get? k' = some charges' := by
        rcases @get?_evictToCap ledger options.maxKeys protectedKeys k' with hsame | hnone
        · rw [← hsame, hleft]
        · rw [hnone] at hleft
          cases hleft
      have hmem' := mem_unprotected.mpr ⟨hk', hfree'⟩
      have hplace' : ¬ placeOf ledger protectedKeys (k', charges') < excess ledger options.maxKeys := by
        intro hlt
        rw [(get?_evictToCap_eq_none hk').mpr ⟨hfree', hlt⟩] at hleft
        cases hleft
      by_contra hexpired
      rw [Bool.not_eq_true] at hexpired
      cases hid : hasIdentity charges' with
      | true =>
        have hall := (h _ (mem_unprotected.mpr ⟨hk, hfree⟩) (isLive_of_hasLiveIdentity hidentity) hplace).2
        exact hplace' (hall hidentity _ hmem' hid hexpired)
      | false =>
        have hbefore := placeOf_lt (b := (k, charges)) hmem' hid (hasIdentity_of_hasLiveIdentity hidentity)
        exact hplace' (hbefore.trans hplace)

/-! ## Calls -/

/-- The scopes that a call charges. -/
def Call.charged (options : RateLimitOptions) : Call → List RequestScope
  | .record key _ => [⟨key, 0, 0⟩]
  | .consume (.array elements) _ _ => (elements.mapM (validateScope options)).toOption.getD []
  | .consume _ _ _ => []

theorem Call.keys_eq (call : Call) :
    call.keys options = (call.charged options).map RequestScope.key := by
  cases call with
  | record key nowMs => rfl
  | consume scopes nowMs requestId => cases scopes <;> rfl

/-- The ledger of the file with the charges of the call. -/
def grown (options : RateLimitOptions) (requestDigest : String → String) (file : Option String)
    (call : Call) (now : Nat) : Ledger :=
  (insertCharges (ledgerOf options file) (call.charged options) ⟨now, call.digest requestDigest⟩).1

/-- What the eviction of the call leaves. -/
def fitted (options : RateLimitOptions) (requestDigest : String → String) (file : Option String)
    (call : Call) (now : Nat) : Ledger :=
  evictToCap (grown options requestDigest file call now) options.maxKeys (call.keys options)

theorem record_eq {key : String} {nowMs : Number} {ledger : Ledger}
    (h : record options file key nowMs = .ok (some ledger)) :
    ∃ now, nowMs.safeNat? = some now ∧
      ledger = pruneLedger (fitted options requestDigest file (.record key nowMs) now) now
        options.retentionMs options.idempotencyRetentionMs := by
  unfold record at h
  split at h
  · cases h
  · split at h
    · cases h
    · next now hnow =>
      obtain ⟨loaded, hloaded, h⟩ := Except.of_bind_ok h
      have hok := loaded_ok hloaded
      have hgrown : ∀ l : Ledger, loaded.getD .empty = l →
          grown options requestDigest file (.record key nowMs) now =
            (insertScope ⟨now, none⟩ (l, false) ⟨key, 0, 0⟩).1 := by
        rintro l rfl
        rw [← ledgerOf_of_loaded hloaded]
        rfl
      refine ⟨now, hnow, ?_⟩
      cases loaded with
      | none =>
        cases h
        have hempty : fitted options requestDigest file (.record key nowMs) now =
            (Map.empty : Ledger).set key [⟨now, none⟩] := by
          rw [fitted, hgrown _ rfl]
          exact evictToCap_of_le options.maxKeys_pos
        have hkept : isKept now options.retentionMs options.idempotencyRetentionMs ⟨now, none⟩ = true :=
          isKept_self (Number.safeNat?_le hnow) none
        rw [hempty]
        simp [pruneLedger, Map.set, Map.setEntries, Map.empty, pruneScope, hkept]
      | some current =>
        dsimp only at h
        split at h
        · next hget =>
          cases h
          have hinsert : grown options requestDigest file (.record key nowMs) now =
              current.set key [⟨now, none⟩] := by
            rw [hgrown current rfl, insertScope, hget]
          rw [fitted, hinsert]
          rfl
        · next existing hexisting =>
          split at h
          · cases h
          · next charges hcharges =>
            cases h
            have hinsert : grown options requestDigest file (.record key nowMs) now =
                current.set key charges := by
              rw [hgrown current rfl, insertScope, hexisting]
              dsimp only
              rw [hcharges]
            -- the scope was there before, so the ledger still fits
            have hfits : (current.set key charges).size ≤ options.maxKeys :=
              (Map.size_set_of_some hexisting).trans_le hok.2
            rw [fitted, hinsert, evictToCap_of_le hfits]

theorem consumeLocked_eq {ledger ledger' : Ledger} {scopes : List RequestScope}
    {digest : Option String} {outcome : AtomicOutcome}
    (h : consumeLocked options ledger scopes now digest = (outcome, some ledger')) :
    ledger' = pruneLedger (evictToCap (insertCharges ledger scopes ⟨now, digest⟩).1 options.maxKeys
      (scopes.map RequestScope.key)) now options.retentionMs options.idempotencyRetentionMs := by
  unfold consumeLocked at h
  dsimp only at h
  split at h
  · cases h
  · split at h
    · cases h
    · split at h
      · unfold commitCharges at h
        dsimp only at h
        split at h
        · cases h
        · split at h
          · cases h
          · exact (Option.some.inj (Prod.mk.inj h).2).symm
      · cases h

/-- A commit saves what the eviction leaves, pruned. -/
theorem saved_eq {call : Call} {ledger : Ledger}
    (h : saved options requestDigest file call = some ledger) :
    ∃ now, call.instant? = some now ∧
      ledger = pruneLedger (fitted options requestDigest file call now) now options.retentionMs
        options.idempotencyRetentionMs := by
  cases call with
  | record key nowMs =>
    rw [saved, Option.join_eq_some_iff] at h
    exact record_eq (Except.of_toOption h)
  | consume scopes nowMs requestId =>
    obtain ⟨⟨outcome, ledger'⟩, hanswer, heq⟩ := Option.bind_eq_some_iff.mp h
    obtain rfl : ledger' = some ledger := heq
    rcases consume_cases (Except.of_toOption hanswer) with
      ⟨reason, heq⟩ | ⟨now, elements, validated, loaded, haccepted, heq⟩
    · cases heq
    · refine ⟨now, haccepted.now_eq, ?_⟩
      rw [consumeLocked_eq heq.symm, fitted, Call.keys_eq, grown, ledgerOf_of_loaded haccepted.loaded_eq,
        haccepted.scopes_eq, Call.charged, haccepted.validated_eq]
      rfl

/-- What a commit saves, and when it gives up live scopes last. -/
theorem givesUpLast_iff {call : Call} {ledger : Ledger}
    (h : saved options requestDigest file call = some ledger) :
    ∃ now, call.instant? = some now ∧
      ledger = pruneLedger (fitted options requestDigest file call now) now options.retentionMs
        options.idempotencyRetentionMs ∧
      (GivesUpLast options now (call.keys options) (grown options requestDigest file call now)
          (fitted options requestDigest file call now) ↔
        Ordered options now (call.keys options) (grown options requestDigest file call now)) := by
  obtain ⟨now, hnow, hledger⟩ := saved_eq h
  exact ⟨now, hnow, hledger, givesUpLast_evictToCap_iff⟩

end Commit

/-! ## Examples -/

/-- A small ledger. -/
def twoKeys : RateLimitOptions where
  retentionMs := 1000
  idempotencyRetentionMs := 2000
  maxKeys := 2
  retentionMs_pos := by decide
  retentionMs_le := by decide
  maxKeys_pos := by decide

/-- A request with an identity at 100, and one without at 2050. -/
def twoScopes : String :=
  "\x7b\x22version\x22: 2, \x22scopes\x22: [" ++
    "\x7b\x22key\x22: \x22pr:2\x22, \x22events\x22: [\x7b\x22at\x22: 2050\x7d]\x7d, " ++
    "\x7b\x22key\x22: \x22pr:1\x22, \x22events\x22: [\x7b\x22at\x22: 100, \x22id\x22: \x22" ++
    digest101 "" ++ "\x22\x7d]\x7d]\x7d"

def twoLedger : Ledger :=
  ((Map.empty : Ledger).set "pr:2" [⟨2050, none⟩]).set "pr:1" [⟨100, some (digest101 "")⟩]

theorem loaded_twoScopes : loadLedgerUnlocked twoKeys (some twoScopes) = .ok (some twoLedger) := by
  have hchars : twoScopes.toList = _ :=
    String.toList_append.trans (congrArg₂ _ (String.toList_append.trans (congrArg₂ _
      (String.toList_append.trans (congrArg₂ _ (String.toList_append.trans (congrArg₂ _
        String.toList_ofList String.toList_ofList)) String.toList_ofList)) String.toList_ofList))
      String.toList_ofList)
  have hread := Json.parse_of_toList hchars
  have hentries : (parseLedger twoScopes 2).toOption.map Map.entries = some twoLedger.entries := by
    rw [parseLedger]
    generalize Json.parse twoScopes = parsed at hread ⊢
    rw [hread]
    decide +kernel
  rw [show loadLedgerUnlocked twoKeys (some twoScopes) = (parseLedger twoScopes 2).map some from rfl]
  cases hload : parseLedger twoScopes 2 with
  | error e =>
    rw [hload] at hentries
    cases hentries
  | ok ledger =>
    rw [hload] at hentries
    rw [Map.ext_entries (Option.some.inj hentries)]
    rfl

theorem saved_twoScopes {nowMs : Number} {now : Nat} (hnow : nowMs.safeNat? = some now) :
    ∃ ledger, saved twoKeys digest101 (some twoScopes) (.record "pr:3" nowMs) = some ledger := by
  have hkey : isKey "pr:3" = true := by decide +kernel
  have hnew : twoLedger.get? "pr:3" = none := by decide +kernel
  refine ⟨pruneLedger (evictToCap (twoLedger.set "pr:3" [⟨now, none⟩]) 2 ["pr:3"]) now 1000 2000, ?_⟩
  rw [saved, record, hkey, hnow, loaded_twoScopes]
  simp only [Bool.true_eq_false, if_false, bind, Except.bind, hnew]
  rfl

theorem grown_twoScopes (nowMs : Number) (now : Nat) :
    grown twoKeys digest101 (some twoScopes) (.record "pr:3" nowMs) now =
      (insertScope ⟨now, none⟩ (twoLedger, false) ⟨"pr:3", 0, 0⟩).1 := by
  rw [grown, ledgerOf_of_loaded loaded_twoScopes]
  rfl

/-- While the identity is live, the scope without one is evicted. -/
theorem givesUpLast_twoScopes :
    ∃ now, (Call.record "pr:3" 2060).instant? = some now ∧
      GivesUpLast twoKeys now ["pr:3"] (grown twoKeys digest101 (some twoScopes) (.record "pr:3" 2060) now)
        (fitted twoKeys digest101 (some twoScopes) (.record "pr:3" 2060) now) := by
  have h2060 : (2060 : Number).safeNat? = some 2060 := by decide +kernel
  obtain ⟨ledger, hsaved⟩ := saved_twoScopes h2060
  obtain ⟨now, hnow, -, hiff⟩ := givesUpLast_iff hsaved
  obtain rfl := Option.some.inj (hnow.symm.trans h2060)
  refine ⟨2060, h2060, hiff.mpr ?_⟩
  rw [grown_twoScopes]
  decide +kernel

/-- When the identity has expired, the live scope is still the one that is evicted, and two scopes
fit. -/
theorem evicts_live :
    ¬ ∀ (options : RateLimitOptions) (requestDigest : String → String) (file : Option String)
      (call : Call) (ledger : Ledger) (now : Nat),
      saved options requestDigest file call = some ledger → call.instant? = some now →
        GivesUpLast options now (call.keys options) (grown options requestDigest file call now)
          (fitted options requestDigest file call now) := by
  intro h
  have hnow : (2900 : Number).safeNat? = some 2900 := by decide +kernel
  obtain ⟨ledger, hsaved⟩ := saved_twoScopes hnow
  have hlast := (h _ _ _ _ _ _ hsaved hnow).live
  rw [fitted, grown_twoScopes] at hlast
  have hget : (insertScope ⟨2900, none⟩ (twoLedger, false) ⟨"pr:3", 0, 0⟩).1.get? "pr:2" =
      some [⟨2050, none⟩] := by decide +kernel
  have hgone : (evictToCap (insertScope ⟨2900, none⟩ (twoLedger, false) ⟨"pr:3", 0, 0⟩).1
      twoKeys.maxKeys ["pr:3"]).get? "pr:2" = none := by decide +kernel
  have hsize : (pruneLedger (insertScope ⟨2900, none⟩ (twoLedger, false) ⟨"pr:3", 0, 0⟩).1 2900
      twoKeys.retentionMs twoKeys.idempotencyRetentionMs).size = 2 := by decide +kernel
  have habove := hlast "pr:2" _ hget (by decide +kernel) hgone
  rw [hsize] at habove
  exact absurd habove (by decide)

end PrReviewer.Followup
