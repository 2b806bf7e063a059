import PrReviewer.State.Conformance

/-!
# Usage accounting

Two histories that record the same usage entries, in any order and any batches, with replays, other
mutations and batches that are refused, give the same aggregate.

- `usage_independent`: the aggregate depends on the set of entries only. All this is while the sums are safe
  integers. Beyond them the store rounds each addition, and the order of the entries shows
  (`usage_dependent`).
-/

open Js List

namespace PrReviewer.State

variable {payloadOk : String → Bool} {t t' : StateTables}

/-! ## Histories -/

/-- The usage entry of a mutation. -/
def usageOf : StateMutation → Option UsageRecord
  | .recordUsage entry => validateUsage entry
  | _ => none

/-- The entries that a call records. -/
def recordedBy (payloadOk : String → Bool) (t : StateTables) : StoreCall → List UsageRecord
  | .apply batch =>
    match applyBatch payloadOk t batch with
    | .ok _ => batch.filterMap usageOf
    | .error _ => []
  | _ => []

/-- The entries that the calls record, with their replays. -/
def recorded (payloadOk : String → Bool) : StateTables → List StoreCall → List UsageRecord
  | _, [] => []
  | t, call :: calls =>
    recordedBy payloadOk t call ++ recorded payloadOk (step payloadOk t call) calls

/-- The entries of a store and the ones that the calls record. -/
def replayed (payloadOk : String → Bool) (t : StateTables) (calls : List StoreCall) :
    List UsageRecord :=
  t.usage.values ++ recorded payloadOk t calls

/-- The usage table: every entry stands under its own id and is valid. -/
def UsageKeyed (t : StateTables) : Prop := Keyed (·.usageId) (validUsage · = true) t.usage

theorem UsageKeyed.opened (h : Opened payloadOk t) : UsageKeyed t := by
  cases h with
  | empty => exact .empty
  | seeded h => exact (tablesOk_newStore h).usage

theorem mem_usage_recordUsage (hk : UsageKeyed t) {v : Value}
    (h : applyMutation payloadOk t (.recordUsage v) = .ok t') : UsageKeyed t' ∧
    ∀ e, e ∈ t'.usage.values ↔ e ∈ t.usage.values ∨ usageOf (.recordUsage v) = some e := by
  simp only [applyMutation] at h
  split at h
  · cases h
  next r hr =>
  have hvalid : validUsage r = true := valid_of_filter hr
  simp only [usageOf, hr]
  split at h
  · next hnew =>
    cases h
    have hk' : UsageKeyed { t with usage := t.usage.set r.usageId r } := Keyed.set hk rfl hvalid
    refine ⟨hk', fun e => ?_⟩
    rw [Keyed.mem_values_iff hk', Keyed.mem_values_iff hk, Map.get?_set]
    split
    · next hid =>
      rw [hid, hnew]
      simp
    · next hid =>
      refine ⟨Or.inl, fun h => h.resolve_right ?_⟩
      rintro heq
      exact hid (Option.some.inj heq ▸ rfl)
  · next old hold =>
    split at h
    · next heq =>
      cases h
      refine ⟨hk, fun e => ⟨Or.inl, fun h => h.elim id ?_⟩⟩
      rintro heq'
      obtain rfl := Option.some.inj heq'
      rw [Keyed.mem_values_iff hk, hold, heq]
    · cases h

theorem mem_usage_applyMutation (hk : UsageKeyed t) {m : StateMutation}
    (h : applyMutation payloadOk t m = .ok t') : UsageKeyed t' ∧
    ∀ e, e ∈ t'.usage.values ↔ e ∈ t.usage.values ∨ usageOf m = some e := by
  cases m with
  | recordUsage v => exact mem_usage_recordUsage hk h
  | unknownKind => cases h
  | _ =>
    have hsame : t'.usage = t.usage := by
      cases wrote_of_ok h <;> rfl
    refine ⟨by rw [UsageKeyed, hsame]; exact hk, fun e => ?_⟩
    simp [hsame, usageOf]

theorem mem_usage_applyBatch (hk : UsageKeyed t) {batch : List StateMutation}
    (h : applyBatch payloadOk t batch = .ok t') : UsageKeyed t' ∧
    ∀ e, e ∈ t'.usage.values ↔ e ∈ t.usage.values ∨ e ∈ batch.filterMap usageOf := by
  induction batch generalizing t with
  | nil =>
    cases h
    exact ⟨hk, fun e => by simp⟩
  | cons m batch ih =>
    rw [applyBatch, foldlM_cons] at h
    obtain ⟨t₁, hm, hrest⟩ := Except.of_bind_ok h
    obtain ⟨hk₁, hmem₁⟩ := mem_usage_applyMutation hk hm
    obtain ⟨hk', hmem'⟩ := ih hk₁ hrest
    refine ⟨hk', fun e => ?_⟩
    rw [hmem', hmem₁, or_assoc, mem_filterMap, mem_filterMap]
    simp

theorem mem_usage_step (payloadOk : String → Bool) (hk : UsageKeyed t) (call : StoreCall) :
    UsageKeyed (step payloadOk t call) ∧
    ∀ e, e ∈ (step payloadOk t call).usage.values ↔
      e ∈ t.usage.values ∨ e ∈ recordedBy payloadOk t call := by
  have hleased : ∀ {runId owner : String} {nowMs ttlMs : Number} {b : Bool} {t' : StateTables},
      Leased t runId owner nowMs ttlMs b t' → t'.usage = t.usage := by
    intro _ _ _ _ _ _ hl
    cases hl <;> rfl
  have hsame : ∀ {t' : StateTables}, t'.usage = t.usage → UsageKeyed t' ∧
      ∀ e, e ∈ t'.usage.values ↔ e ∈ t.usage.values ∨ e ∈ ([] : List UsageRecord) := by
    intro t' heq
    exact ⟨by rw [UsageKeyed, heq]; exact hk, fun e => by simp [heq]⟩
  cases call with
  | apply batch =>
    cases hb : applyBatch payloadOk t batch with
    | ok t' =>
      have hstep : step payloadOk t (.apply batch) = t' := by
        rw [step, perform, hb]
        rfl
      rw [hstep, recordedBy, hb]
      exact mem_usage_applyBatch hk hb
    | error e =>
      have hstep : step payloadOk t (.apply batch) = t := by
        rw [step, perform, hb]
        rfl
      rw [hstep, recordedBy, hb]
      exact hsame rfl
  | claimRun runId owner nowMs ttlMs =>
    refine hsame ?_
    unfold step
    split
    · next h => exact hleased (leased_of_claimRun h)
    · rfl
  | heartbeatRun runId owner nowMs ttlMs =>
    refine hsame ?_
    unfold step
    split
    · next h => exact hleased (leased_of_heartbeatRun h)
    · rfl

/-- A store holds the replayed entries. -/
theorem mem_usage_run (payloadOk : String → Bool) (hk : UsageKeyed t) (calls : List StoreCall) :
    UsageKeyed (Machine.run (step payloadOk) t calls) ∧
      ∀ e, e ∈ (Machine.run (step payloadOk) t calls).usage.values ↔
        e ∈ replayed payloadOk t calls := by
  induction calls generalizing t with
  | nil => exact ⟨hk, fun e => by simp [replayed, recorded]⟩
  | cons call calls ih =>
    obtain ⟨hk₁, hmem₁⟩ := mem_usage_step payloadOk hk call
    obtain ⟨hk', hmem'⟩ := ih hk₁
    refine ⟨hk', fun e => ?_⟩
    rw [Machine.run_cons, hmem', replayed, replayed, recorded, mem_append, mem_append,
      mem_append, hmem₁, or_assoc]

theorem nodup_usage (hk : UsageKeyed t) : t.usage.values.Nodup := by
  apply List.Nodup.of_map (·.usageId)
  rw [Keyed.identities hk]
  exact t.usage.nodup

/-! ## What an aggregate says -/

/-- The entries that a row stands for. -/
def standsFor (row : UsageAggregateRow) (e : UsageRecord) : Bool :=
  e.route = row.route && e.role.name = row.role

variable {e : UsageRecord} {entries : List UsageRecord}

theorem standsFor_iff {row : UsageAggregateRow} :
    standsFor row e = true ↔ e.route = row.route ∧ e.role.name = row.role := by
  simp [standsFor]

theorem standsFor_rowOf {route : String} {role : UsageRole}
    : standsFor (rowOf entries route role) e = true ↔ e.route = route ∧ e.role = role :=
  standsFor_iff.trans (and_congr_right' ⟨UsageRole.name_injective, congrArg UsageRole.name⟩)

theorem filter_standsFor (entries : List UsageRecord) (route : String)
    (role : UsageRole) : entries.filter (standsFor (rowOf entries route role)) =
      entriesOf entries route role := by
  refine filter_congr fun e _ => ?_
  rw [Bool.eq_iff_iff, standsFor_rowOf]
  simp

/-- The sums of the rows. -/
def rowSums (rows : List UsageAggregateRow) : UsageSums :=
  ⟨(rows.map (·.requestCount)).sum, (rows.map (·.inputTokens)).sum,
    (rows.map (·.cacheReadTokens)).sum, (rows.map (·.cacheWriteTokens)).sum,
    (rows.map (·.outputTokens)).sum, (rows.map (·.costMicros)).sum⟩

/-- Each entry counts in one row, the totals are the sums of the rows, and a provenance is that of all
entries that it is of; of no entry it is unknown. -/
structure Accounts (entries : List UsageRecord) (a : UsageAggregate) : Prop where
  distinct : (a.rows.map fun row => (row.route, row.role)).Nodup
  counted : ∀ e ∈ entries, ∃ row ∈ a.rows, standsFor row e = true ∧
    ∀ row' ∈ a.rows, standsFor row' e = true → row' = row
  rows : ∀ row ∈ a.rows, row.toUsageSums = exactSums (entries.filter (standsFor row))
  totals : a.totals.toUsageSums = rowSums a.rows
  rowProvenance : ∀ row ∈ a.rows, ∀ p, row.costProvenance = .source p ↔
    ∀ e ∈ entries, standsFor row e = true → e.costProvenance = p
  provenance : ∀ p, a.totals.costProvenance = .source p ↔
    if entries = [] then p = .unknown else ∀ e ∈ entries, e.costProvenance = p

theorem aggregateProvenance_iff (p : UsageCostProvenance) :
    aggregateProvenance entries = .source p ↔
      if entries = [] then p = .unknown else ∀ e ∈ entries, e.costProvenance = p := by
  split
  · next hnil =>
    subst hnil
    simp [aggregateProvenance, eq_comm]
  · next hne =>
    constructor
    · intro h e he
      by_contra hp
      by_cases hall : ∀ e' ∈ entries, e'.costProvenance = e.costProvenance
      · rw [aggregateProvenance_source hne hall] at h
        exact hp (AggregatedCostProvenance.source.inj h)
      · obtain ⟨e', he'⟩ := not_forall.mp hall
        obtain ⟨he', hdiff⟩ := Classical.not_imp.mp he'
        rw [aggregateProvenance_mixed he' he hdiff] at h
        cases h
    · exact aggregateProvenance_source hne

/-! ## The rows of a store -/

theorem perm_rows (t : StateTables) :
    (aggregateUsage t).rows.Perm ((groupBy groupKey t.usage.values).entries.map fun (key, entries) =>
      { totalsOf entries with route := (splitKey key).1, role := (splitKey key).2 }) :=
  mergeSort_perm _ _

/-- The sum of a field over the rows is the one over the entries. -/
theorem sum_rows (hfits : (exactSums t.usage.values).fits = true) (field : UsageRecord → Nat)
    (column : UsageAggregateRow → Nat)
    (hcolumn : ∀ entries route role, (exactSums entries).fits = true →
      column { totalsOf entries with route, role } = (entries.map field).sum) :
    ((aggregateUsage t).rows.map column).sum = (t.usage.values.map field).sum := by
  have hgroups : (groupBy groupKey t.usage.values).entries.map (column ∘ fun (key, entries) =>
        { totalsOf entries with route := (splitKey key).1, role := (splitKey key).2 }) =
      (groupBy groupKey t.usage.values).values.map fun entries => (entries.map field).sum := by
    refine Eq.trans ?_ map_map.symm
    refine map_congr_left fun g hg => ?_
    obtain ⟨-, hgroup⟩ := mem_groupBy.mp (show (g.1, g.2) ∈ _ from hg)
    refine hcolumn g.2 _ _ (fits_sublist ?_ hfits)
    rw [hgroup]
    exact filter_sublist
  calc ((aggregateUsage t).rows.map column).sum
      = (((groupBy groupKey t.usage.values).values.map fun entries => entries.map field).map
          List.sum).sum := by
        rw [((perm_rows t).map column).sum_eq, map_map, hgroups, map_map]
        rfl
    _ = ((groupBy groupKey t.usage.values).values.flatten.map field).sum := by
        rw [← sum_flatten, map_flatten]
    _ = (t.usage.values.map field).sum := ((perm_groupBy groupKey t.usage.values).map field).sum_eq

section Rows

variable (hroutes : ∀ e ∈ t.usage.values, NoNul e.route)
include hroutes

/-- A row stands for an entry when it has its route and role. -/
theorem eq_rowOf {row : UsageAggregateRow} (hrow : row ∈ (aggregateUsage t).rows) {e : UsageRecord}
    (h : standsFor row e = true) : row = rowOf t.usage.values e.route e.role := by
  obtain ⟨e', -, rfl⟩ := (mem_rows_iff hroutes).mp hrow
  obtain ⟨hroute, hrole⟩ := standsFor_rowOf.mp h
  rw [hroute, hrole]

/-- No two rows have the same route and role. -/
theorem distinct_rows : ((aggregateUsage t).rows.map fun row => (row.route, row.role)).Nodup := by
  refine (((perm_rows t).map fun row => (row.route, row.role)).nodup_iff).mpr ?_
  rw [map_map]
  have hkeys := (groupBy groupKey t.usage.values).nodup
  refine List.Nodup.of_map (fun p : String × String => p.1 ++ "\x00" ++ p.2) ?_
  rw [map_map]
  have hsame : (groupBy groupKey t.usage.values).entries.map
      ((fun p : String × String => p.1 ++ "\x00" ++ p.2) ∘
        ((fun row : UsageAggregateRow => (row.route, row.role)) ∘ fun (key, entries) =>
          { totalsOf entries with route := (splitKey key).1, role := (splitKey key).2 })) =
      (groupBy groupKey t.usage.values).entries.map Prod.fst := by
    refine map_congr_left fun g hg => ?_
    obtain ⟨k, group⟩ := g
    obtain ⟨⟨e, he, rfl⟩, -⟩ := mem_groupBy.mp hg
    simp only [Function.comp_apply, splitKey_groupKey (hroutes e he)]
    rfl
  rw [hsame]
  exact hkeys

/-- An aggregate accounts for the entries of its store. -/
theorem accounts_of_fits (hfits : (exactSums t.usage.values).fits = true) :
    Accounts t.usage.values (aggregateUsage t) where
  distinct := distinct_rows hroutes
  counted e he := by
    refine ⟨rowOf t.usage.values e.route e.role, (mem_rows_iff hroutes).mpr ⟨e, he, rfl⟩,
      standsFor_rowOf.mpr ⟨rfl, rfl⟩, fun row hrow hfor => eq_rowOf hroutes hrow hfor⟩
  rows row hrow := by
    obtain ⟨e, -, rfl⟩ := (mem_rows_iff hroutes).mp hrow
    have hgroup : (exactSums (entriesOf t.usage.values e.route e.role)).fits = true :=
      fits_sublist filter_sublist hfits
    rw [filter_standsFor, rowOf, totalsOf_eq hgroup]
  totals := by
    rw [totals_eq hfits, totalsOf_eq hfits, rowSums]
    have hsum := fun field column => sum_rows hfits field column
    rw [hsum (·.requestCount), hsum (·.inputTokens), hsum (·.cacheReadTokens),
      hsum (·.cacheWriteTokens), hsum (·.outputTokens), hsum (·.costMicros)]
    · rfl
    all_goals
      intro entries route role h
      rw [totalsOf_eq h]
      rfl
  rowProvenance row hrow p := by
    obtain ⟨e, he, rfl⟩ := (mem_rows_iff hroutes).mp hrow
    have hmem : e ∈ entriesOf t.usage.values e.route e.role := by simp [entriesOf, he]
    rw [rowOf, totalsOf, aggregateProvenance_iff, if_neg (ne_nil_of_mem hmem),
      ← filter_standsFor]
    simp only [mem_filter, and_imp]
    rfl
  provenance p := by
    rw [totals_eq hfits, totalsOf, aggregateProvenance_iff]

end Rows

/-! ## Order -/

theorem rowLe_iff {a b : UsageAggregateRow} : rowLe a b = true ↔
    toLex (utf16 a.route, utf16 a.role) ≤ toLex (utf16 b.route, utf16 b.role) := by
  rw [Prod.Lex.toLex_le_toLex, rowLe]
  split
  · next heq =>
    simp [heq, strLt]
  · next hne =>
    have hutf : utf16 a.route ≠ utf16 b.route := fun h => hne (utf16_injective h)
    simp [hutf, strLt]

theorem sorted_rows (t : StateTables) : (aggregateUsage t).rows.Pairwise (rowLe · · = true) := by
  refine pairwise_mergeSort (fun a b c hab hbc => ?_) (fun a b => ?_) _
  · exact rowLe_iff.mpr ((rowLe_iff.mp hab).trans (rowLe_iff.mp hbc))
  · rw [Bool.or_eq_true, rowLe_iff, rowLe_iff]
    exact le_total _ _

/-- While the sums fit, the aggregate is the same for every order of the entries. -/
theorem aggregateUsage_perm (hperm : t.usage.values.Perm t'.usage.values)
    (hroutes : ∀ e ∈ t.usage.values, NoNul e.route)
    (hfits : (exactSums t.usage.values).fits = true) : aggregateUsage t = aggregateUsage t' := by
  have hroutes' : ∀ e ∈ t'.usage.values, NoNul e.route := fun e he => hroutes e (hperm.mem_iff.mpr he)
  have hfits' : (exactSums t'.usage.values).fits = true := by rwa [← exactSums_perm hperm]
  have hmem : ∀ row, row ∈ (aggregateUsage t).rows ↔ row ∈ (aggregateUsage t').rows := by
    intro row
    rw [mem_rows_iff hroutes, mem_rows_iff hroutes']
    simp only [rowOf_perm hperm hfits', hperm.mem_iff]
  have hrows : (aggregateUsage t).rows.Perm (aggregateUsage t').rows :=
    (perm_ext_iff_of_nodup (distinct_rows hroutes).of_map (distinct_rows hroutes').of_map).mpr hmem
  -- rows in both orders have the same route and role, and so they are the same
  have hanti : ∀ a b, a ∈ (aggregateUsage t).rows → b ∈ (aggregateUsage t').rows →
      rowLe a b = true → rowLe b a = true → a = b := by
    intro a b ha hb hab hba
    have hkey := toLex.injective (le_antisymm (rowLe_iff.mp hab) (rowLe_iff.mp hba))
    obtain ⟨hroute, hrole⟩ := Prod.mk.inj hkey
    refine inj_on_of_nodup_map (distinct_rows hroutes) ha ((hmem b).mpr hb) ?_
    exact Prod.ext (utf16_injective hroute) (utf16_injective hrole)
  have heq : (aggregateUsage t).rows = (aggregateUsage t').rows :=
    List.Perm.eq_of_pairwise hanti (sorted_rows t) (sorted_rows t') hrows
  have htotals : (aggregateUsage t).totals = (aggregateUsage t').totals := by
    rw [totals_eq hfits, totals_eq hfits', totalsOf_perm hperm hfits']
  calc aggregateUsage t = ⟨(aggregateUsage t).rows, (aggregateUsage t).totals⟩ := rfl
    _ = ⟨(aggregateUsage t').rows, (aggregateUsage t').totals⟩ := by rw [heq, htotals]

/-- Two histories with the same entries have the same aggregate, and it accounts for these entries, while
the sums of the distinct entries are safe integers. -/
theorem usage_independent (ht : Opened payloadOk t) (ht' : Opened payloadOk t')
    (calls calls' : List StoreCall)
    (hsame : ∀ e, e ∈ replayed payloadOk t calls ↔ e ∈ replayed payloadOk t' calls')
    (hfits : (exactSums (replayed payloadOk t calls).dedup).fits = true) :
    aggregateUsage (Machine.run (step payloadOk) t calls) =
        aggregateUsage (Machine.run (step payloadOk) t' calls') ∧
      Accounts (Machine.run (step payloadOk) t calls).usage.values
        (aggregateUsage (Machine.run (step payloadOk) t calls)) ∧
      (Machine.run (step payloadOk) t calls).usage.values.Perm (replayed payloadOk t calls).dedup := by
  obtain ⟨hk, hmem⟩ := mem_usage_run payloadOk (UsageKeyed.opened ht) calls
  obtain ⟨hk', hmem'⟩ := mem_usage_run payloadOk (UsageKeyed.opened ht') calls'
  have hperm : (Machine.run (step payloadOk) t calls).usage.values.Perm
      (replayed payloadOk t calls).dedup := by
    refine (perm_ext_iff_of_nodup (nodup_usage hk) (nodup_dedup _)).mpr fun e => ?_
    rw [hmem, mem_dedup]
  have hvalues : (Machine.run (step payloadOk) t calls).usage.values.Perm
      (Machine.run (step payloadOk) t' calls').usage.values := by
    refine (perm_ext_iff_of_nodup (nodup_usage hk) (nodup_usage hk')).mpr fun e => ?_
    rw [hmem, hmem', hsame]
  have hroutes : ∀ e ∈ (Machine.run (step payloadOk) t calls).usage.values, NoNul e.route := fun e he =>
    noNul_of_validUsage (hk _ _ (hk.mem_values_iff.mp he)).2
  have hrun : (exactSums (Machine.run (step payloadOk) t calls).usage.values).fits = true := by
    rwa [exactSums_perm hperm]
  exact ⟨aggregateUsage_perm hvalues hroutes hrun, accounts_of_fits hroutes hrun, hperm⟩

/-- A usage entry with a cost. -/
def costs (usageId : String) (costMicros : Nat) : UsageRecord where
  usageId := usageId
  runId := "run-1"
  route := "default"
  role := .primary
  requestCount := 1
  inputTokens := 10
  cacheReadTokens := 0
  cacheWriteTokens := 0
  outputTokens := 5
  costMicros := costMicros
  costProvenance := .providerReported
  recordedAtMs := 1000

/-- The entries recorded one by one, and in one batch. -/
def oneByOne (entries : List UsageRecord) : List StoreCall :=
  entries.map fun e => .apply [.recordUsage (usageValue e)]

def inOneBatch (entries : List UsageRecord) : List StoreCall :=
  [.apply (entries.map fun e => .recordUsage (usageValue e))]

theorem usage_independent_replayed :
    aggregateUsage (Machine.run (step fun _ => true) .empty
        (oneByOne [costs "a" 3, costs "b" 4, costs "a" 3])) =
      aggregateUsage (Machine.run (step fun _ => true) .empty (inOneBatch [costs "b" 4, costs "a" 3])) := by
  have hset : ∀ a b e : UsageRecord, e ∈ [a, b, a] ↔ e ∈ [b, a] := by
    intro a b e
    simp only [mem_cons, not_mem_nil, or_false]
    tauto
  have hfirst : replayed (fun _ => true) .empty (oneByOne [costs "a" 3, costs "b" 4, costs "a" 3]) =
      [costs "a" 3, costs "b" 4, costs "a" 3] := by decide +kernel
  have hsecond : replayed (fun _ => true) .empty (inOneBatch [costs "b" 4, costs "a" 3]) =
      [costs "b" 4, costs "a" 3] := by decide +kernel
  refine (usage_independent .empty .empty _ _ (fun e => ?_) ?_).1
  · rw [hfirst, hsecond]
    exact hset _ _ e
  · rw [hfirst]
    decide +kernel

/-- Beyond the safe integers the order shows: the small costs are lost behind the large one, and are not
before it. -/
theorem usage_dependent :
    ¬ ∀ calls calls' : List StoreCall,
      (∀ e, e ∈ replayed (fun _ => true) .empty calls ↔ e ∈ replayed (fun _ => true) .empty calls') →
        aggregateUsage (Machine.run (step fun _ => true) .empty calls) =
          aggregateUsage (Machine.run (step fun _ => true) .empty calls') := by
  intro h
  let entries := [costs "a" maxSafe, costs "b" 1, costs "c" 1, costs "d" 1]
  have hfirst : replayed (fun _ => true) .empty (oneByOne entries) = entries := by decide +kernel
  have hsecond : replayed (fun _ => true) .empty (oneByOne entries.reverse) = entries.reverse := by
    decide +kernel
  have hsame := h (oneByOne entries) (oneByOne entries.reverse) fun e => by
    rw [hfirst, hsecond, mem_reverse]
  have hcost := congrArg (fun a => a.totals.costMicros) hsame
  have hlost : (aggregateUsage (Machine.run (step fun _ => true) .empty
      (oneByOne entries))).totals.costMicros = 2 ^ 53 := by decide +kernel
  have hkept : (aggregateUsage (Machine.run (step fun _ => true) .empty
      (oneByOne entries.reverse))).totals.costMicros = 2 ^ 53 + 2 := by decide +kernel
  rw [hlost, hkept] at hcost
  exact absurd hcost (by decide)

end PrReviewer.State
