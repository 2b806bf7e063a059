import Mathlib.Algebra.Order.BigOperators.Group.List
import Mathlib.Algebra.Order.Group.Nat
import PrReviewer.Js.Group
import PrReviewer.State.Store

/-!
# Usage aggregates

`aggregateUsage` of `src/state/store.ts`: the usage entries grouped by route and role, with the sums of each
group and of all groups. The sums are JavaScript numbers (`plus`).
-/

open Js List

namespace PrReviewer.State

/-! ## Sums -/

structure UsageSums where
  requestCount : Nat
  inputTokens : Nat
  cacheReadTokens : Nat
  cacheWriteTokens : Nat
  outputTokens : Nat
  costMicros : Nat
  deriving DecidableEq

inductive AggregatedCostProvenance where
  | source (provenance : UsageCostProvenance)
  | mixed
  deriving DecidableEq

structure UsageTotals extends UsageSums where
  costProvenance : AggregatedCostProvenance
  deriving DecidableEq

structure UsageAggregateRow extends UsageTotals where
  route : String
  role : String
  deriving DecidableEq

structure UsageAggregate where
  rows : List UsageAggregateRow
  totals : UsageTotals
  deriving DecidableEq

/-- The fields that are summed, by a sum of one field. -/
def sumsBy (sum : (UsageRecord → Nat) → Nat) : UsageSums :=
  ⟨sum (·.requestCount), sum (·.inputTokens), sum (·.cacheReadTokens), sum (·.cacheWriteTokens),
    sum (·.outputTokens), sum (·.costMicros)⟩

/-- `entries.reduce((sum, e) => sum + field(e), 0)`. -/
def reduceSum (entries : List UsageRecord) (field : UsageRecord → Nat) : Nat :=
  entries.foldl (fun sum e => plus sum (field e)) 0

def aggregateProvenance : List UsageRecord → AggregatedCostProvenance
  | [] => .source .unknown
  | e :: entries =>
    if entries.all fun e' => e'.costProvenance = e.costProvenance then .source e.costProvenance
    else .mixed

def totalsOf (entries : List UsageRecord) : UsageTotals :=
  { sumsBy (reduceSum entries) with costProvenance := aggregateProvenance entries }

/-! ## Rows -/

def groupKey (e : UsageRecord) : String := e.route ++ "\x00" ++ e.role.name

/-- `groupKey.split("\u0000")`, the first two parts. -/
def splitKey (key : String) : String × String :=
  match key.toList.splitOn '\x00' with
  | route :: role :: _ => (String.ofList route, String.ofList role)
  | _ => (key, "")

/-- The order of the rows; no two rows have the same route and role. -/
def rowLe (a b : UsageAggregateRow) : Bool :=
  if a.route = b.route then !strLt b.role a.role else strLt a.route b.route

def aggregateUsage (t : StateTables) : UsageAggregate :=
  let grouped := groupBy groupKey t.usage.values
  let rows := grouped.entries.map fun (key, entries) =>
    { totalsOf entries with route := (splitKey key).1, role := (splitKey key).2 : UsageAggregateRow }
  { rows := rows.mergeSort rowLe
    totals := totalsOf grouped.values.flatten }

/-! ## Groups -/

/-- A text that can stand in front of the separator. -/
def NoNul (s : String) : Prop := '\x00' ∉ s.toList

theorem noNul_role (r : UsageRole) : NoNul r.name := by
  unfold NoNul
  cases r <;> decide

variable {e : UsageRecord} {entries entries' : List UsageRecord} {t : StateTables}

theorem splitKey_groupKey (h : NoNul e.route) :
    splitKey (groupKey e) = (e.route, e.role.name) := by
  have hkey : (groupKey e).toList = e.route.toList ++ '\x00' :: e.role.name.toList := by
    simp [groupKey, String.toList_append]
  unfold splitKey
  rw [hkey, splitOn_append_cons_self, splitOn_eq_singleton h,
    splitOn_eq_singleton (noNul_role e.role)]
  simp

theorem UsageRole.name_injective {r r' : UsageRole} (h : r.name = r'.name) : r = r' := by
  revert h
  cases r <;> cases r' <;> decide

/-- The entries with a route and a role. -/
def entriesOf (entries : List UsageRecord) (route : String) (role : UsageRole) : List UsageRecord :=
  entries.filter fun e => e.route = route && e.role = role

/-- The row of a route and a role. -/
def rowOf (entries : List UsageRecord) (route : String) (role : UsageRole) : UsageAggregateRow :=
  { totalsOf (entriesOf entries route role) with route, role := role.name }

theorem groupOf_groupKey (h : ∀ e ∈ entries, NoNul e.route) {e : UsageRecord}
    (he : e ∈ entries) : groupOf groupKey entries (groupKey e) = entriesOf entries e.route e.role := by
  refine filter_congr fun e' he' => ?_
  rw [← Bool.decide_and, decide_eq_decide]
  constructor
  · intro heq
    have hsplit := congrArg splitKey heq
    rw [splitKey_groupKey (h e' he'), splitKey_groupKey (h e he), Prod.mk.injEq] at hsplit
    exact ⟨hsplit.1, UsageRole.name_injective hsplit.2⟩
  · rintro ⟨hroute, hrole⟩
    rw [groupKey, groupKey, hroute, hrole]

/-- One row for each route and role that an entry has. -/
theorem mem_rows_iff (h : ∀ e ∈ t.usage.values, NoNul e.route)
    {row : UsageAggregateRow} :
    row ∈ (aggregateUsage t).rows ↔
      ∃ e ∈ t.usage.values, row = rowOf t.usage.values e.route e.role := by
  rw [aggregateUsage, mem_mergeSort]
  simp only [mem_map, Prod.exists, mem_groupBy]
  constructor
  · rintro ⟨_, _, ⟨⟨e, he, rfl⟩, rfl⟩, rfl⟩
    refine ⟨e, he, ?_⟩
    rw [groupOf_groupKey h he, splitKey_groupKey (h e he)]
    rfl
  · rintro ⟨e, he, rfl⟩
    refine ⟨groupKey e, _, ⟨⟨e, he, rfl⟩, rfl⟩, ?_⟩
    rw [groupOf_groupKey h he, splitKey_groupKey (h e he)]
    rfl

/-! ## Sums within the safe integers -/

/-- The exact sums. -/
def exactSums (entries : List UsageRecord) : UsageSums := sumsBy fun field => (entries.map field).sum

def UsageSums.fits (s : UsageSums) : Bool :=
  [s.requestCount, s.inputTokens, s.cacheReadTokens, s.cacheWriteTokens, s.outputTokens, s.costMicros].all
    fun n => decide (n ≤ maxSafe)

theorem fits_iff : (exactSums entries).fits = true ↔
    (entries.map (·.requestCount)).sum ≤ maxSafe ∧ (entries.map (·.inputTokens)).sum ≤ maxSafe ∧
      (entries.map (·.cacheReadTokens)).sum ≤ maxSafe ∧
      (entries.map (·.cacheWriteTokens)).sum ≤ maxSafe ∧
      (entries.map (·.outputTokens)).sum ≤ maxSafe ∧ (entries.map (·.costMicros)).sum ≤ maxSafe := by
  simp [UsageSums.fits, exactSums, sumsBy]

/-- Adding up within the safe integers does not round. -/
theorem foldl_plus {α : Type} (f : α → Nat) (as : List α) (n : Nat) (h : n + (as.map f).sum ≤ maxSafe) :
    as.foldl (fun sum a => plus sum (f a)) n = n + (as.map f).sum := by
  induction as generalizing n with
  | nil => simp
  | cons a as ih =>
    rw [map_cons, sum_cons] at h ⊢
    have hlt : n + f a < 2 ^ 53 := by
      have : maxSafe < 2 ^ 53 := by decide
      omega
    rw [foldl_cons, plus_of_lt hlt, ih _ (by omega)]
    omega

theorem reduceSum_eq {field : UsageRecord → Nat}
    (h : (entries.map field).sum ≤ maxSafe) : reduceSum entries field = (entries.map field).sum := by
  rw [reduceSum, foldl_plus field entries 0 (by omega)]
  omega

theorem totalsOf_eq (h : (exactSums entries).fits = true) :
    totalsOf entries =
      { exactSums entries with costProvenance := aggregateProvenance entries } := by
  obtain ⟨h1, h2, h3, h4, h5, h6⟩ := fits_iff.mp h
  simp only [totalsOf, exactSums, sumsBy, reduceSum_eq h1, reduceSum_eq h2, reduceSum_eq h3,
    reduceSum_eq h4, reduceSum_eq h5, reduceSum_eq h6]

theorem exactSums_perm (h : entries.Perm entries') :
    exactSums entries = exactSums entries' := by
  simp only [exactSums, sumsBy, fun field => (h.map field).sum_eq]

/-- A part of the entries fits when all of them do. -/
theorem fits_sublist (hsub : entries.Sublist entries')
    (h : (exactSums entries').fits = true) : (exactSums entries).fits = true := by
  have hle := fun field : UsageRecord → Nat => (hsub.map field).sum_le_sum fun _ _ => Nat.zero_le _
  rw [fits_iff] at h ⊢
  grind

/-! ## Provenance -/

theorem aggregateProvenance_source {p : UsageCostProvenance}
    (hne : entries ≠ []) (h : ∀ e ∈ entries, e.costProvenance = p) :
    aggregateProvenance entries = .source p := by
  cases entries with
  | nil => exact absurd rfl hne
  | cons e entries =>
    have he := h e mem_cons_self
    rw [aggregateProvenance, if_pos, he]
    rw [all_eq_true]
    intro e' he'
    rw [decide_eq_true_eq, he, h e' (mem_cons_of_mem _ he')]

theorem aggregateProvenance_mixed {e' : UsageRecord} (he : e ∈ entries)
    (he' : e' ∈ entries) (h : e.costProvenance ≠ e'.costProvenance) :
    aggregateProvenance entries = .mixed := by
  cases entries with
  | nil => cases he
  | cons a entries =>
    rw [aggregateProvenance, if_neg]
    intro hall
    have hsame : ∀ x ∈ a :: entries, x.costProvenance = a.costProvenance := by
      simpa using hall
    exact h ((hsame e he).trans (hsame e' he').symm)

/-- The provenance of a group does not depend on the order of its entries. -/
theorem aggregateProvenance_perm (h : entries.Perm entries') :
    aggregateProvenance entries = aggregateProvenance entries' := by
  cases hentries : entries with
  | nil => rw [hentries] at h; rw [h.nil_eq]
  | cons e rest =>
    rw [← hentries]
    have he : e ∈ entries := hentries ▸ mem_cons_self
    by_cases hall : ∀ e' ∈ entries, e'.costProvenance = e.costProvenance
    · rw [aggregateProvenance_source (ne_nil_of_mem he) hall,
        aggregateProvenance_source (ne_nil_of_mem (h.mem_iff.mp he)) fun e' he' =>
          hall e' (h.mem_iff.mpr he')]
    · obtain ⟨e', hne⟩ := not_forall.mp hall
      obtain ⟨he', hne⟩ := Classical.not_imp.mp hne
      rw [aggregateProvenance_mixed he' he hne,
        aggregateProvenance_mixed (h.mem_iff.mp he') (h.mem_iff.mp he) hne]

/-! ## Order -/

/-- While the sums fit, the totals do not depend on the order of the entries. -/
theorem totalsOf_perm (h : entries.Perm entries')
    (hfits : (exactSums entries').fits = true) : totalsOf entries = totalsOf entries' := by
  rw [totalsOf_eq hfits, totalsOf_eq (by rwa [exactSums_perm h]), exactSums_perm h,
    aggregateProvenance_perm h]

theorem rowOf_perm (h : entries.Perm entries')
    (hfits : (exactSums entries').fits = true) (route : String) (role : UsageRole) :
    rowOf entries route role = rowOf entries' route role := by
  have hgroup : (entriesOf entries route role).Perm (entriesOf entries' route role) := h.filter _
  rw [rowOf, rowOf, totalsOf_perm hgroup (fits_sublist filter_sublist hfits)]

theorem totals_eq (h : (exactSums t.usage.values).fits = true) :
    (aggregateUsage t).totals = totalsOf t.usage.values :=
  totalsOf_perm (perm_groupBy groupKey t.usage.values) h

end PrReviewer.State
