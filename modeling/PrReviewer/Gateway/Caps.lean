import PrReviewer.Gateway.Ledger

/-!
# A run's budget is not exceeded silently

What a reserved row counts is its estimates and one request; a commit replaces them by the actuals. The
`overran` flag compares tokens and cost, not the number of requests. So the totals of a run stay within
its caps as long as none of its committed rows is flagged and no commit settles a row for more than one
request without the flag (`singly`): `budget_kept`.

Right after a reservation was admitted the totals are within the caps in any case, since the admission
compares the very totals that the ledger shows afterwards (`within_admitted`).
-/

open Js

namespace PrReviewer.Gateway

/-- What a row counts, without rounding. -/
def BudgetReservationRow.use (row : BudgetReservationRow) : BudgetUsageTotals :=
  match row.state with
  | .refunded => ⟨0, 0, 0⟩
  | .committed => ⟨row.actualRequestCount, row.actualTokens, row.actualCostMicros⟩
  | .reserved => ⟨1, row.estimatedTokens, row.estimatedCostMicros⟩

namespace InMemoryBudgetLedger

variable {l : InMemoryBudgetLedger}

/-! ## Totals and caps -/

theorem GatewayBudgetLimits.lt (c : GatewayBudgetLimits) :
    c.maxRequests < 2 ^ 53 ∧ c.maxTokens < 2 ^ 53 ∧ c.maxCostMicros < 2 ^ 53 := by
  have hr := c.requests_le
  have ht := c.tokens_le
  have hc := c.cost_le
  unfold maxBudgetLimit at hr ht hc
  omega

theorem plus_add_le_iff {a b s c : Nat} (hc : c < 2 ^ 53) : plus a b + s ≤ c ↔ a + b + s ≤ c := by
  by_cases h : a + b < 2 ^ 53
  · rw [plus_of_lt h]
  · have := le_nearest (n := a + b) (by omega)
    unfold plus
    omega

/-- The rounded totals are within the caps if and only if the exact ones are. -/
theorem within_foldl_iff (rows : List BudgetReservationRow) (t : BudgetUsageTotals) :
    l.within (rows.foldl BudgetUsageTotals.addRow t) ↔
      t.requestCount + (rows.map (·.use.requestCount)).sum ≤ l.caps.maxRequests ∧
      t.tokens + (rows.map (·.use.tokens)).sum ≤ l.caps.maxTokens ∧
      t.costMicros + (rows.map (·.use.costMicros)).sum ≤ l.caps.maxCostMicros := by
  obtain ⟨hr, ht, hc⟩ := GatewayBudgetLimits.lt l.caps
  induction rows generalizing t with
  | nil => simp [within]
  | cons row rows ih =>
    rw [List.foldl_cons, ih]
    simp only [List.map_cons, List.sum_cons, ← Nat.add_assoc]
    cases hs : row.state with
    | refunded => simp [BudgetUsageTotals.addRow, BudgetReservationRow.use, hs]
    | committed =>
      simp only [BudgetUsageTotals.addRow, BudgetReservationRow.use, hs,
        BudgetUsageTotals.addTotals, plus_add_le_iff hr, plus_add_le_iff ht, plus_add_le_iff hc]
    | reserved =>
      simp only [BudgetUsageTotals.addRow, BudgetReservationRow.use, hs,
        BudgetUsageTotals.addTotals, plus_add_le_iff hr, plus_add_le_iff ht, plus_add_le_iff hc]

/-- The exact use of a run, in one dimension. -/
def used (l : InMemoryBudgetLedger) (f : BudgetUsageTotals → Nat) (runId : String) : Nat :=
  ((l.rowsForRun runId).values.map (fun row => f row.use)).sum

theorem within_usageFor_iff (l : InMemoryBudgetLedger) (runId : String) :
    l.within (l.usageFor runId) ↔
      l.used (·.requestCount) runId ≤ l.caps.maxRequests ∧
      l.used (·.tokens) runId ≤ l.caps.maxTokens ∧
      l.used (·.costMicros) runId ≤ l.caps.maxCostMicros := by
  rw [usageFor_eq, within_foldl_iff]
  simp only [Nat.zero_add, used]

variable {runId reservationId : String} {row row' : BudgetReservationRow} {now : Number}

/-- Replacing a row by one that counts no more does not raise the use of any run. -/
theorem used_setRow_le {f : BudgetUsageTotals → Nat}
    (hrow : l.row? runId reservationId = some row)
    (hf : f row'.use ≤ f row.use) (r : String) :
    (l.setRow runId reservationId row').used f r ≤ l.used f r := by
  unfold used
  rw [rowsForRun_setRow]
  split
  · next h =>
    subst h
    rw [row?_eq] at hrow
    have := Map.sum_set (f := fun row => f row.use) (w := row') hrow
    omega
  · exact Nat.le_refl _

theorem within_setRow
    (hrow : l.row? runId reservationId = some row)
    (huse : row'.use.requestCount ≤ row.use.requestCount ∧ row'.use.tokens ≤ row.use.tokens ∧
      row'.use.costMicros ≤ row.use.costMicros) {r : String} (h : l.within (l.usageFor r)) :
    (l.setRow runId reservationId row').within ((l.setRow runId reservationId row').usageFor r) := by
  rw [within_usageFor_iff] at h ⊢
  obtain ⟨hr, ht, hc⟩ := h
  exact ⟨Nat.le_trans (used_setRow_le (f := (·.requestCount)) hrow huse.1 r) hr,
    Nat.le_trans (used_setRow_le (f := (·.tokens)) hrow huse.2.1 r) ht,
    Nat.le_trans (used_setRow_le (f := (·.costMicros)) hrow huse.2.2 r) hc⟩

/-- The totals that an admission compared are the totals of the run with the new row. -/
theorem usageFor_admitted {r : CheckedReservation}
    (hrow : l.row? r.runId r.reservationId = none) :
    (l.setRow r.runId r.reservationId (r.row now)).usageFor r.runId =
      (l.usageFor r.runId).addTotals ⟨1, r.estimatedTokens, r.estimatedCostMicros⟩ := by
  rw [row?_eq] at hrow
  rw [usageFor_eq, usageFor_eq, rowsForRun_setRow, if_pos rfl, Map.values_set_of_none hrow,
    List.foldl_append]
  rfl

/-! ## The invariant -/

/-- No committed row of the run is flagged. -/
def Unflagged (l : InMemoryBudgetLedger) (runId : String) : Prop :=
  ∀ i row, l.row? runId i = some row → row.state = .committed → row.overran = false

/-- Every run without a flagged row is within the caps. -/
def Kept (l : InMemoryBudgetLedger) : Prop := ∀ r, l.Unflagged r → l.within (l.usageFor r)

theorem unflagged_iff : l.Unflagged runId ↔
    ∀ e ∈ (l.rowsForRun runId).entries, e.2.state = .committed → e.2.overran = false := by
  unfold Unflagged
  simp only [row?_eq, ← Map.mem_entries_iff]
  exact ⟨fun h e he => h e.1 e.2 he, fun h i row he => h (i, row) he⟩

instance (l : InMemoryBudgetLedger) (runId : String) : Decidable (l.Unflagged runId) :=
  decidable_of_iff _ unflagged_iff.symm

/-- The call is not a commit that settles a live row, within the row's estimates, for more than one
request. -/
def singly (l : InMemoryBudgetLedger) (c : Call) : Bool :=
  match c.op with
  | .commit runId reservationId actual =>
    match l.row? runId reservationId, actual.check with
    | some row, some a =>
      row.state ≠ .reserved || row.estimatedTokens < a.tokens ||
        row.estimatedCostMicros < a.costMicros || a.requestCount ≤ 1
    | _, _ => true
  | _ => true

theorem kept_fresh (caps : GatewayBudgetLimits) : (fresh caps).Kept := by
  intro r _
  rw [within_usageFor_iff]
  exact ⟨Nat.zero_le _, Nat.zero_le _, Nat.zero_le _⟩

/-- Setting a row that takes the place of an uncommitted one hides no flag. -/
theorem unflagged_of_setRow {r : String}
    (hlive : ∀ row, l.row? runId reservationId = some row → row.state ≠ .committed)
    (h : (l.setRow runId reservationId row').Unflagged r) : l.Unflagged r := by
  intro i row hrow hs
  refine h i row ?_ hs
  rw [row?_setRow]
  split
  · next heq =>
    obtain ⟨rfl, rfl⟩ := heq
    exact absurd hs (hlive row hrow)
  · exact hrow

theorem kept_next {c : Call} (h : l.Kept) (hc : l.singly c = true) : (l.next c).Kept := by
  rcases l.next_cases c with heq | ⟨input, q, -, -, hrow, -, hcap, heq⟩ |
    ⟨runId, i, actual, row, a, hop, hrow, hs, ha, heq⟩ | ⟨runId, i, row, -, hrow, hs, heq⟩ |
    ⟨runId, -, -, heq⟩ <;> rw [heq]
  · exact h
  · -- a new row: the other runs keep their totals, this one was compared
    intro r hu
    by_cases hr : r = q.runId
    · subst hr
      rw [usageFor_admitted hrow]
      exact hcap
    · have hsame : (l.setRow q.runId q.reservationId (q.row c.now)).usageFor r = l.usageFor r := by
        rw [usageFor_eq, usageFor_eq, rowsForRun_setRow, if_neg hr]
      rw [hsame]
      exact h r (unflagged_of_setRow (by simp [hrow]) hu)
  · intro r hu
    have hbefore : l.Unflagged r :=
      unflagged_of_setRow (by intro x hx; rw [hrow] at hx; cases hx; simp [hs]) hu
    by_cases hr : r = runId
    · subst hr
      have hflag := hu i (row.committed a c.now) (by simp [row?_setRow]) rfl
      simp only [BudgetReservationRow.committed, Bool.or_eq_false_iff, decide_eq_false_iff_not,
        Nat.not_lt] at hflag
      have hone : a.requestCount ≤ 1 := by
        simp [singly, hop, hrow, ha, hs] at hc
        omega
      refine within_setRow hrow ?_ (h r hbefore)
      simpa only [BudgetReservationRow.use, hs, BudgetReservationRow.committed] using
        ⟨hone, hflag.1, hflag.2⟩
    · have hsame : (l.setRow runId i (row.committed a c.now)).usageFor r = l.usageFor r := by
        rw [usageFor_eq, usageFor_eq, rowsForRun_setRow, if_neg hr]
      rw [hsame]
      exact h r hbefore
  · intro r hu
    have hbefore : l.Unflagged r :=
      unflagged_of_setRow (by intro x hx; rw [hrow] at hx; cases hx; simp [hs]) hu
    refine within_setRow hrow ?_ (h r hbefore)
    simp [BudgetReservationRow.use, BudgetReservationRow.refunded]
  · exact h

/-- A reservation that was admitted leaves its run within the caps. -/
theorem within_admitted {input : BudgetReservationInput}
    (hnew : l.row? input.runId input.reservationId = none)
    (hok : (l.reserve now input).1 = .ok row) :
    (l.reserve now input).2.within ((l.reserve now input).2.usageFor input.runId) := by
  rcases l.reserve_cases now input with ⟨-, h⟩ | ⟨r, hc, hrow, -, hcap, h⟩
  · rw [h row hok] at hnew
    cases hnew
  · obtain ⟨-, hrun, -⟩ := BudgetReservationInput.check_ok hc
    rw [h, ← hrun, usageFor_admitted hrow]
    exact hcap

/-- On a new ledger with caps `caps`, right after every reservation that is new and succeeds the
totals of its run are within the caps. In every run of calls that are all `singly`, the totals of a run
without a flagged row are within the caps. -/
theorem budget_kept (caps : GatewayBudgetLimits) :
    (∀ calls now input row, ((fresh caps).run calls).row? input.runId input.reservationId = none →
      (((fresh caps).run calls).reserve now input).1 = .ok row →
      let t := (((fresh caps).run calls).reserve now input).2.usageFor input.runId
      t.requestCount ≤ caps.maxRequests ∧ t.tokens ≤ caps.maxTokens ∧
        t.costMicros ≤ caps.maxCostMicros) ∧
    (∀ calls, Machine.Along next (fun l c => l.singly c = true) (fresh caps) calls →
      ∀ runId, ((fresh caps).run calls).Unflagged runId →
      let t := ((fresh caps).run calls).usageFor runId
      t.requestCount ≤ caps.maxRequests ∧ t.tokens ≤ caps.maxTokens ∧
        t.costMicros ≤ caps.maxCostMicros) := by
  refine ⟨fun calls now input row hnew hok => ?_, fun calls hcalls runId hu => ?_⟩
  · have h := within_admitted hnew hok
    have hcaps := caps_next ((fresh caps).run calls) ⟨.reserve input, now⟩
    rw [caps_run] at hcaps
    unfold within at h
    rwa [show (((fresh caps).run calls).reserve now input).2.caps = caps from hcaps] at h
  · have h := Machine.Along.invariant (I := Kept) (fun l c hl hc => kept_next hl hc) hcalls
      (kept_fresh caps) runId hu
    unfold within at h
    rwa [show (Machine.run next (fresh caps) calls).caps = caps from caps_run _ calls] at h

/-- A budget of one request. -/
def oneRequest : GatewayBudgetLimits := ⟨1, 1000, 0, Nat.one_pos, one_le_thousand,
  one_le_maxBudgetLimit, thousand_le_maxBudgetLimit, Nat.zero_le _⟩

/-- A reservation of 10 tokens for the run "r". -/
def tenTokens : BudgetReservationInput := ⟨"a", "r", 1, "p", 10, 0⟩

theorem budget_kept_once :
    (let t := (((fresh oneRequest).run []).reserve 5 tenTokens).2.usageFor "r";
      t.requestCount ≤ 1 ∧ t.tokens ≤ 1000 ∧ t.costMicros ≤ 0) ∧
    (let t := ((fresh oneRequest).run
        [⟨.reserve tenTokens, 5⟩, ⟨.commit "r" "a" ⟨1, 7, 0⟩, 6⟩]).usageFor "r";
      t.requestCount ≤ 1 ∧ t.tokens ≤ 1000 ∧ t.costMicros ≤ 0) :=
  ⟨(budget_kept oneRequest).1 [] 5 tenTokens
      ((⟨"a", "r", 1, "p", 10, 0⟩ : CheckedReservation).row 5) (by decide +kernel) (by rfl),
    (budget_kept oneRequest).2 [⟨.reserve tenTokens, 5⟩, ⟨.commit "r" "a" ⟨1, 7, 0⟩, 6⟩]
      (by decide +kernel) "r" (by decide +kernel)⟩

/-- A commit for five requests within the estimates of a reservation is not flagged, and the run is
past its cap of one request. -/
theorem requests_exceeded : ¬∀ (caps : GatewayBudgetLimits) (calls : List Call) (runId : String),
    ((fresh caps).run calls).Unflagged runId →
    (((fresh caps).run calls).usageFor runId).requestCount ≤ caps.maxRequests := by
  intro h
  have := h oneRequest [⟨.reserve tenTokens, 5⟩, ⟨.commit "r" "a" ⟨5, 10, 0⟩, 6⟩] "r"
    (by decide +kernel)
  revert this
  decide +kernel

end InMemoryBudgetLedger

end PrReviewer.Gateway
