import PrReviewer.Js.Action
import PrReviewer.Js.Integer
import PrReviewer.Js.Machine
import PrReviewer.Js.Map
import PrReviewer.Js.Value

/-!
# The run-scoped budget ledger

`InMemoryBudgetLedger` records one reservation row for each pair of run id and reservation id, and the
current cancellation generation of each run. `reserve` admits a request against the run's totals,
`commit` and `refund` settle a live row, `cancelRun` raises the run's generation.

- Arguments are unchecked JavaScript numbers; what the operations record of them are natural numbers.
- Every operation that writes a row reads the clock: the reading is the argument `now`.
- `durableState` is the payload that `InMemoryBudgetLedger.ofState` re-seeds a ledger from, row by row
  after `validateBudgetReservationRow` and `validateBudgetRunGeneration`.
-/

open Js

namespace PrReviewer.Gateway

/-! ## Limits -/

/-- `MAX_BUDGET_LIMIT`. -/
def maxBudgetLimit : Nat := 999999999999999

/-- What `validateBudgetLimits` is given. -/
structure BudgetLimitsInput where
  maxRequests : Number
  maxTokens : Number
  maxCostMicros : Number

/-- Accepted caps. -/
structure GatewayBudgetLimits where
  maxRequests : Nat
  maxTokens : Nat
  maxCostMicros : Nat
  requests_pos : 1 ≤ maxRequests
  tokens_pos : 1 ≤ maxTokens
  requests_le : maxRequests ≤ maxBudgetLimit
  tokens_le : maxTokens ≤ maxBudgetLimit
  cost_le : maxCostMicros ≤ maxBudgetLimit

theorem one_le_thousand : 1 ≤ 1000 := by decide

theorem thousand_le_maxBudgetLimit : 1000 ≤ maxBudgetLimit := by decide

theorem two_le_maxBudgetLimit : 2 ≤ maxBudgetLimit := by decide

theorem one_le_maxBudgetLimit : 1 ≤ maxBudgetLimit := by decide

/-- The checks that all three figures go through. -/
def checkLimit (name : String) (amount : Number) : Except Exn {n : Nat // n ≤ maxBudgetLimit} :=
  match amount.safeNat? with
  | none =>
    .error (rangeError ("gateway budget limits." ++ name ++ " must be a safe non-negative integer"))
  | some n =>
    if h : n ≤ maxBudgetLimit then .ok ⟨n, h⟩
    else .error (rangeError ("gateway budget limits." ++ name ++ " must be at most 999999999999999"))

def validateBudgetLimits (value : BudgetLimitsInput) : Except Exn GatewayBudgetLimits := do
  let requests ← checkLimit "maxRequests" value.maxRequests
  let tokens ← checkLimit "maxTokens" value.maxTokens
  let cost ← checkLimit "maxCostMicros" value.maxCostMicros
  if hr : 1 ≤ requests.val then
    if ht : 1 ≤ tokens.val then
      return ⟨requests, tokens, cost, hr, ht, requests.2, tokens.2, cost.2⟩
    else throw (rangeError "gateway budget limits.maxTokens must be at least 1")
  else throw (rangeError "gateway budget limits.maxRequests must be at least 1")

/-! ## Rows -/

inductive RowState where
  | reserved
  | committed
  | refunded
  deriving DecidableEq

structure BudgetReservationRow where
  reservationId : String
  runId : String
  generation : Nat
  modelProfile : String
  estimatedTokens : Nat
  estimatedCostMicros : Nat
  state : RowState
  actualRequestCount : Nat
  actualTokens : Nat
  actualCostMicros : Nat
  overran : Bool
  reservedAtMs : Number
  settledAtMs : Number

structure BudgetRunGenerationRow where
  runId : String
  generation : Nat

structure BudgetDurableState where
  rows : List BudgetReservationRow
  generations : List BudgetRunGenerationRow

structure BudgetUsageTotals where
  requestCount : Nat
  tokens : Nat
  costMicros : Nat
  deriving DecidableEq

/-- `identifier`, and its copy `rowIdentifier`. -/
def identifier (value : String) (max : Nat) : Option String :=
  if strLength value = 0 ∨ max < strLength value then none
  else if value ≠ trim value then none
  else if hasControlChar value then none
  else some value

/-- `isSafeNonNegativeInteger` of a number that is a natural one. -/
def isSafeNonNegativeInteger (n : Nat) : Bool := decide (n ≤ maxSafe)

/-- `isSafeNonNegativeInteger` of a time. -/
def isSafeTime (x : Number) : Bool := x.isSafeInteger && decide ((0 : Number) ≤ x)

/-- The checks of `validateBudgetReservationRow`, in its order; the first one that fails makes it
return `null`. -/
def BudgetReservationRow.isValid (row : BudgetReservationRow) : Bool :=
  (identifier row.reservationId 128).isSome &&
  (identifier row.runId 128).isSome &&
  (isSafeNonNegativeInteger row.generation && 1 ≤ row.generation) &&
  (identifier row.modelProfile 64).isSome &&
  isSafeNonNegativeInteger row.estimatedTokens &&
  isSafeNonNegativeInteger row.estimatedCostMicros &&
  isSafeNonNegativeInteger row.actualRequestCount &&
  !(row.state = .committed && row.actualRequestCount < 1) &&
  isSafeNonNegativeInteger row.actualTokens &&
  isSafeNonNegativeInteger row.actualCostMicros &&
  !(row.state ≠ .committed && row.overran) &&
  isSafeTime row.reservedAtMs &&
  isSafeTime row.settledAtMs &&
  !(row.state = .reserved && row.settledAtMs != 0) &&
  !(row.state ≠ .reserved && row.settledAtMs ≤ 0)

def validateBudgetReservationRow (row : BudgetReservationRow) : Option BudgetReservationRow :=
  if row.isValid then some row else none

def BudgetRunGenerationRow.isValid (row : BudgetRunGenerationRow) : Bool :=
  (identifier row.runId 128).isSome &&
  (isSafeNonNegativeInteger row.generation && 1 ≤ row.generation)

def validateBudgetRunGeneration (row : BudgetRunGenerationRow) : Option BudgetRunGenerationRow :=
  if row.isValid then some row else none

/-! ## Requests and answers -/

structure BudgetReservationInput where
  reservationId : String
  runId : String
  generation : Number
  modelProfile : String
  estimatedTokens : Number
  estimatedCostMicros : Number

structure BudgetActualUsage where
  requestCount : Number
  tokens : Number
  costMicros : Number

inductive BudgetRefusalCode where
  | invalidRequest
  | reservationMismatch
  | budgetExhausted
  | cancelled
  | unknownReservation
  deriving DecidableEq

structure BudgetRefusal where
  code : BudgetRefusalCode
  reason : String
  deriving DecidableEq

abbrev BudgetResult := Except BudgetRefusal BudgetReservationRow

def refusal {α : Type} (code : BudgetRefusalCode) (reason : String) : Except BudgetRefusal α :=
  .error ⟨code, reason⟩

/-- `[A-Za-z0-9]`. -/
def isAlphanumeric (c : Char) : Bool := isDigit c || ('a' ≤ c && c ≤ 'z') || ('A' ≤ c && c ≤ 'Z')

/-- `RUN_ID_RE`, which is `/^[A-Za-z0-9][A-Za-z0-9._:-]{0,127}$/`. -/
def runIdRe (s : String) : Bool :=
  match s.toList with
  | [] => false
  | c :: cs => isAlphanumeric c && decide (cs.length ≤ 127) && cs.all (fun c => isTokenChar c || c = ':')

/-- A reservation request whose fields passed their checks. -/
structure CheckedReservation where
  reservationId : String
  runId : String
  generation : Nat
  modelProfile : String
  estimatedTokens : Nat
  estimatedCostMicros : Nat

/-- The field checks of `reserve`, in its order. -/
def BudgetReservationInput.check (input : BudgetReservationInput) :
    Except BudgetRefusal CheckedReservation := do
  let some reservationId := identifier input.reservationId 128
    | refusal .invalidRequest "reservation id is malformed"
  let some runId := (identifier input.runId 128).filter runIdRe
    | refusal .invalidRequest "reservation run id is malformed"
  let some modelProfile := identifier input.modelProfile 64
    | refusal .invalidRequest "reservation model profile is malformed"
  let some generation := input.generation.safeNat?.filter (1 ≤ ·)
    | refusal .invalidRequest "reservation generation must be an integer >= 1"
  let some estimatedTokens := input.estimatedTokens.safeNat?
    | refusal .invalidRequest "reservation estimated tokens must be a safe non-negative integer"
  let some estimatedCostMicros := input.estimatedCostMicros.safeNat?
    | refusal .invalidRequest "reservation estimated cost must be a safe non-negative integer"
  return { reservationId, runId, generation, modelProfile, estimatedTokens, estimatedCostMicros }

/-- The check of `commit` on the settled usage. -/
def BudgetActualUsage.check (actual : BudgetActualUsage) : Option BudgetUsageTotals := do
  let requestCount ← actual.requestCount.safeNat?.filter (1 ≤ ·)
  let tokens ← actual.tokens.safeNat?
  let costMicros ← actual.costMicros.safeNat?
  return { requestCount, tokens, costMicros }

/-- The row that `reserve` records. -/
def CheckedReservation.row (r : CheckedReservation) (now : Number) : BudgetReservationRow where
  reservationId := r.reservationId
  runId := r.runId
  generation := r.generation
  modelProfile := r.modelProfile
  estimatedTokens := r.estimatedTokens
  estimatedCostMicros := r.estimatedCostMicros
  state := .reserved
  actualRequestCount := 0
  actualTokens := 0
  actualCostMicros := 0
  overran := false
  reservedAtMs := now
  settledAtMs := 0

/-- The row that `commit` leaves of a live one. -/
def BudgetReservationRow.committed (row : BudgetReservationRow) (a : BudgetUsageTotals)
    (now : Number) : BudgetReservationRow :=
  { row with
    state := .committed
    actualRequestCount := a.requestCount
    actualTokens := a.tokens
    actualCostMicros := a.costMicros
    overran := row.estimatedTokens < a.tokens || row.estimatedCostMicros < a.costMicros
    settledAtMs := now }

/-- The row that `refund` leaves of a live one. -/
def BudgetReservationRow.refunded (row : BudgetReservationRow) (now : Number) :
    BudgetReservationRow :=
  { row with state := .refunded, settledAtMs := now }

theorem identifier_eq {value v : String} {max : Nat} (h : identifier value max = some v) :
    v = value := by
  unfold identifier at h
  split at h
  · cases h
  · split at h
    · cases h
    · split at h
      · cases h
      · exact (Option.some.inj h).symm

/-- A checked request holds the fields of the input, and these passed their checks. -/
theorem BudgetReservationInput.check_ok {input : BudgetReservationInput} {r : CheckedReservation}
    (h : input.check = .ok r) :
    r.reservationId = input.reservationId ∧ r.runId = input.runId ∧
      identifier r.reservationId 128 = some r.reservationId ∧
      identifier r.runId 128 = some r.runId ∧ identifier r.modelProfile 64 = some r.modelProfile ∧
      input.generation.safeNat? = some r.generation ∧ 1 ≤ r.generation ∧
      input.estimatedTokens.safeNat? = some r.estimatedTokens ∧
      input.estimatedCostMicros.safeNat? = some r.estimatedCostMicros := by
  unfold check at h
  cases hid : identifier input.reservationId 128 with
  | none => simp [hid, refusal] at h
  | some reservationId =>
  cases hrun : (identifier input.runId 128).filter runIdRe with
  | none => simp [hid, hrun, refusal] at h
  | some runId =>
  cases hprof : identifier input.modelProfile 64 with
  | none => simp [hid, hrun, hprof, refusal] at h
  | some modelProfile =>
  cases hgen : input.generation.safeNat?.filter (1 ≤ ·) with
  | none => simp [hid, hrun, hprof, hgen, refusal] at h
  | some generation =>
  cases htok : input.estimatedTokens.safeNat? with
  | none => simp [hid, hrun, hprof, hgen, htok, refusal] at h
  | some estimatedTokens =>
  cases hcost : input.estimatedCostMicros.safeNat? with
  | none => simp [hid, hrun, hprof, hgen, htok, hcost, refusal] at h
  | some estimatedCostMicros =>
  simp only [hid, hrun, hprof, hgen, htok, hcost, pure, Except.pure, Except.ok.injEq] at h
  subst h
  rw [Option.filter_eq_some_iff] at hrun hgen
  obtain rfl := identifier_eq hid
  obtain rfl := identifier_eq hrun.1
  obtain rfl := identifier_eq hprof
  exact ⟨rfl, rfl, hid, hrun.1, hprof, hgen.1, by simpa using hgen.2, rfl, rfl⟩

/-! ## The ledger -/

structure InMemoryBudgetLedger where
  caps : GatewayBudgetLimits
  rows : Map String (Map String BudgetReservationRow)
  generations : Map String Nat

namespace BudgetUsageTotals

def addTotals (a b : BudgetUsageTotals) : BudgetUsageTotals where
  requestCount := plus a.requestCount b.requestCount
  tokens := plus a.tokens b.tokens
  costMicros := plus a.costMicros b.costMicros

/-- The totals with one row counted: a committed row counts its actuals, a reserved one its
estimates, a refunded one nothing. -/
def addRow (t : BudgetUsageTotals) (row : BudgetReservationRow) : BudgetUsageTotals :=
  match row.state with
  | .refunded => t
  | .committed => addTotals t ⟨row.actualRequestCount, row.actualTokens, row.actualCostMicros⟩
  | .reserved => addTotals t ⟨1, row.estimatedTokens, row.estimatedCostMicros⟩

end BudgetUsageTotals

namespace InMemoryBudgetLedger

/-- `#rowsForRun`, without the entry that it makes for a run with no rows. -/
def rowsForRun (l : InMemoryBudgetLedger) (runId : String) : Map String BudgetReservationRow :=
  (l.rows.get? runId).getD Map.empty

/-- `this.#rowsForRun(runId).set(reservationId, row)`. -/
def setRow (l : InMemoryBudgetLedger) (runId reservationId : String) (row : BudgetReservationRow) :
    InMemoryBudgetLedger :=
  { l with rows := l.rows.set runId ((l.rowsForRun runId).set reservationId row) }

/-- `this.#rows.get(runId)?.get(reservationId)`. -/
def row? (l : InMemoryBudgetLedger) (runId reservationId : String) : Option BudgetReservationRow :=
  (l.rows.get? runId).bind (·.get? reservationId)

/-- The totals of the runs that `runId` selects: one run, or all of them. -/
def totals (l : InMemoryBudgetLedger) (runId : Option String) : BudgetUsageTotals :=
  l.rows.entries.foldl
    (fun t group =>
      if runId.any (· ≠ group.1) then t else group.2.values.foldl BudgetUsageTotals.addRow t)
    ⟨0, 0, 0⟩

def usage (l : InMemoryBudgetLedger) : BudgetUsageTotals := l.totals none

def usageFor (l : InMemoryBudgetLedger) (runId : String) : BudgetUsageTotals := l.totals (some runId)

def generationFor (l : InMemoryBudgetLedger) (runId : String) : Nat :=
  (l.generations.get? runId).getD 1

/-- The totals `t` are within the caps. -/
def within (l : InMemoryBudgetLedger) (t : BudgetUsageTotals) : Prop :=
  t.requestCount ≤ l.caps.maxRequests ∧ t.tokens ≤ l.caps.maxTokens ∧
    t.costMicros ≤ l.caps.maxCostMicros

instance (l : InMemoryBudgetLedger) (t : BudgetUsageTotals) : Decidable (l.within t) :=
  inferInstanceAs (Decidable (_ ∧ _))

def reserve (l : InMemoryBudgetLedger) (now : Number) (input : BudgetReservationInput) :
    BudgetResult × InMemoryBudgetLedger :=
  match input.check with
  | .error e => (.error e, l)
  | .ok r =>
    match l.row? r.runId r.reservationId with
    | some existing =>
      if existing.generation ≠ r.generation ∨ existing.modelProfile ≠ r.modelProfile ∨
          existing.estimatedTokens ≠ r.estimatedTokens ∨
          existing.estimatedCostMicros ≠ r.estimatedCostMicros then
        (refusal .reservationMismatch
          "reservation id is already recorded for this run with a different identity", l)
      else (.ok existing, l)
    | none =>
      if r.generation < l.generationFor r.runId then
        (refusal .cancelled "the run has been cancelled past this reservation's generation", l)
      else
        let projected :=
          (l.usageFor r.runId).addTotals ⟨1, r.estimatedTokens, r.estimatedCostMicros⟩
        if ¬l.within projected then
          (refusal .budgetExhausted "the reservation would exceed the run's budget caps", l)
        else
          (.ok (r.row now), l.setRow r.runId r.reservationId (r.row now))

def commit (l : InMemoryBudgetLedger) (now : Number) (runId reservationId : String)
    (actual : BudgetActualUsage) : BudgetResult × InMemoryBudgetLedger :=
  match l.row? runId reservationId with
  | none =>
    (refusal .unknownReservation "reservation id is not recorded by this ledger for this run", l)
  | some row =>
    match actual.check with
    | none =>
      (refusal .invalidRequest
        "settled usage must be safe non-negative integers with at least one request", l)
    | some a =>
      match row.state with
      | .refunded =>
        (refusal .reservationMismatch "reservation was refunded and cannot be committed", l)
      | .committed =>
        if row.actualRequestCount = a.requestCount ∧ row.actualTokens = a.tokens ∧
            row.actualCostMicros = a.costMicros then (.ok row, l)
        else
          (refusal .reservationMismatch
            "reservation was already committed with different actuals", l)
      | .reserved =>
        (.ok (row.committed a now), l.setRow runId reservationId (row.committed a now))

def refund (l : InMemoryBudgetLedger) (now : Number) (runId reservationId : String) :
    BudgetResult × InMemoryBudgetLedger :=
  match l.row? runId reservationId with
  | none =>
    (refusal .unknownReservation "reservation id is not recorded by this ledger for this run", l)
  | some row =>
    match row.state with
    | .committed =>
      (refusal .reservationMismatch "reservation was committed and cannot be refunded", l)
    | .refunded => (.ok row, l)
    | .reserved =>
      (.ok (row.refunded now), l.setRow runId reservationId (row.refunded now))

def cancelRun (l : InMemoryBudgetLedger) (runId : String) : Except Exn Nat × InMemoryBudgetLedger :=
  if runIdRe runId then
    let next := plus (l.generationFor runId) 1
    (.ok next, { l with generations := l.generations.set runId next })
  else (.error ⟨"BudgetLedgerError", "budget ledger: cancelRun run id is malformed"⟩, l)

def allRows (l : InMemoryBudgetLedger) : List BudgetReservationRow :=
  l.rows.values.flatMap Map.values

def generationRows (l : InMemoryBudgetLedger) : List BudgetRunGenerationRow :=
  l.generations.entries.map fun e => ⟨e.1, e.2⟩

def durableState (l : InMemoryBudgetLedger) : BudgetDurableState := ⟨l.allRows, l.generationRows⟩

/-! ## Lookup -/

section Lookup

variable (l : InMemoryBudgetLedger) (runId reservationId : String) (row : BudgetReservationRow)

@[simp] theorem caps_setRow : (l.setRow runId reservationId row).caps = l.caps := rfl

@[simp] theorem generationFor_setRow (r : String) :
    (l.setRow runId reservationId row).generationFor r = l.generationFor r := rfl

theorem row?_eq (r i : String) : l.row? r i = (l.rowsForRun r).get? i := by
  unfold row? rowsForRun
  cases l.rows.get? r <;> rfl

theorem rowsForRun_setRow (r : String) :
    (l.setRow runId reservationId row).rowsForRun r =
      if r = runId then (l.rowsForRun runId).set reservationId row else l.rowsForRun r := by
  unfold rowsForRun setRow
  rw [Map.get?_set]
  split <;> rfl

theorem row?_setRow (r i : String) :
    (l.setRow runId reservationId row).row? r i =
      if r = runId ∧ i = reservationId then some row else l.row? r i := by
  rw [row?_eq, row?_eq, rowsForRun_setRow]
  by_cases h : r = runId
  · subst h
    simp [Map.get?_set]
  · simp [h]

end Lookup

/-- The rows of one run are counted in the order in which they were reserved. -/
theorem usageFor_eq (l : InMemoryBudgetLedger) (runId : String) :
    l.usageFor runId =
      (l.rowsForRun runId).values.foldl BudgetUsageTotals.addRow ⟨0, 0, 0⟩ := by
  have hone : (fun (t : BudgetUsageTotals) (group : String × Map String BudgetReservationRow) =>
      if (some runId).any (· ≠ group.1) then t
      else group.2.values.foldl BudgetUsageTotals.addRow t) =
      fun t group =>
        if runId = group.1 then group.2.values.foldl BudgetUsageTotals.addRow t else t := by
    funext t group
    by_cases h : runId = group.1 <;> simp [h]
  unfold usageFor totals rowsForRun
  rw [hone, l.rows.foldl_entries_at runId (fun t rows => rows.values.foldl _ t)]
  cases l.rows.get? runId <;> rfl

/-! ## What a call writes -/

/-- `reserve` hands back a recorded row or refuses, or it records one new row, which is admitted. -/
theorem reserve_cases (l : InMemoryBudgetLedger) (now : Number) (input : BudgetReservationInput) :
    ((l.reserve now input).2 = l ∧ ∀ row, (l.reserve now input).1 = .ok row →
      l.row? input.runId input.reservationId = some row) ∨
      ∃ r, input.check = .ok r ∧ l.row? r.runId r.reservationId = none ∧
        l.generationFor r.runId ≤ r.generation ∧
        l.within ((l.usageFor r.runId).addTotals ⟨1, r.estimatedTokens, r.estimatedCostMicros⟩) ∧
        l.reserve now input = (.ok (r.row now), l.setRow r.runId r.reservationId (r.row now)) := by
  unfold reserve
  cases hc : input.check with
  | error e => exact .inl ⟨rfl, by simp⟩
  | ok r =>
    obtain ⟨hid, hrun, -⟩ := BudgetReservationInput.check_ok hc
    dsimp only
    cases hrow : l.row? r.runId r.reservationId with
    | some existing =>
      rw [hid, hrun] at hrow
      dsimp only
      split
      · exact .inl ⟨rfl, by simp [refusal]⟩
      · exact .inl ⟨rfl, fun row h => by rw [hrow, Except.ok.inj h]⟩
    | none =>
      dsimp only
      split
      · exact .inl ⟨rfl, by simp [refusal]⟩
      · next hgen =>
        split
        · exact .inl ⟨rfl, by simp [refusal]⟩
        · next hcap =>
          exact .inr ⟨r, rfl, hrow, Nat.le_of_not_lt hgen, Decidable.of_not_not hcap, rfl⟩

/-- `commit` leaves the ledger alone or commits a live row. -/
theorem commit_cases (l : InMemoryBudgetLedger) (now : Number) (runId reservationId : String)
    (actual : BudgetActualUsage) :
    (l.commit now runId reservationId actual).2 = l ∨
      ∃ row a, l.row? runId reservationId = some row ∧ row.state = .reserved ∧
        actual.check = some a ∧
        l.commit now runId reservationId actual =
          (.ok (row.committed a now), l.setRow runId reservationId (row.committed a now)) := by
  unfold commit
  cases hrow : l.row? runId reservationId with
  | none => exact .inl rfl
  | some row =>
    cases ha : actual.check with
    | none => exact .inl rfl
    | some a =>
      dsimp only
      cases hs : row.state with
      | refunded => exact .inl rfl
      | committed =>
        dsimp only
        split <;> exact .inl rfl
      | reserved => exact .inr ⟨row, a, rfl, hs, rfl, rfl⟩

/-- `refund` leaves the ledger alone or refunds a live row. -/
theorem refund_cases (l : InMemoryBudgetLedger) (now : Number) (runId reservationId : String) :
    (l.refund now runId reservationId).2 = l ∨
      ∃ row, l.row? runId reservationId = some row ∧ row.state = .reserved ∧
        l.refund now runId reservationId =
          (.ok (row.refunded now), l.setRow runId reservationId (row.refunded now)) := by
  unfold refund
  cases hrow : l.row? runId reservationId with
  | none => exact .inl rfl
  | some row =>
    dsimp only
    cases hs : row.state with
    | committed => exact .inl rfl
    | refunded => exact .inl rfl
    | reserved => exact .inr ⟨row, rfl, hs, rfl⟩

/-! ## Construction -/

def ledgerError (message : String) : Exn := ⟨"BudgetLedgerError", message⟩

def fresh (caps : GatewayBudgetLimits) : InMemoryBudgetLedger := ⟨caps, .empty, .empty⟩

/-- One generation row of a seed. -/
def seedGeneration (l : InMemoryBudgetLedger) (row : BudgetRunGenerationRow) :
    Except Exn InMemoryBudgetLedger :=
  match validateBudgetRunGeneration row with
  | none => .error (ledgerError "budget ledger seed generation row is malformed")
  | some checked =>
    if l.generations.has checked.runId then
      .error (ledgerError ("budget ledger: run id '" ++ checked.runId ++
        "' provided a generation row more than once"))
    else .ok { l with generations := l.generations.set checked.runId checked.generation }

/-- The generations after a reservation row of a seed was read: it raises that of its run. -/
def raised (l : InMemoryBudgetLedger) (runId : String) (generation : Nat) : Map String Nat :=
  match l.generations.get? runId with
  | none => l.generations.set runId generation
  | some recorded =>
    if recorded < generation then l.generations.set runId generation else l.generations

/-- One reservation row of a seed. -/
def seedRow (l : InMemoryBudgetLedger) (row : BudgetReservationRow) :
    Except Exn InMemoryBudgetLedger :=
  match validateBudgetReservationRow row with
  | none => .error (ledgerError "budget ledger seed row is malformed")
  | some checked =>
    if (l.rowsForRun checked.runId).has checked.reservationId then
      .error (ledgerError ("budget ledger: reservation id '" ++ checked.reservationId ++
        "' provided more than once for run '" ++ checked.runId ++ "'"))
    else
      .ok { l.setRow checked.runId checked.reservationId checked with
            generations := l.raised checked.runId checked.generation }

/-- The constructor, with accepted caps and a seed. -/
def ofState (caps : GatewayBudgetLimits) (state : BudgetDurableState) :
    Except Exn InMemoryBudgetLedger := do
  let l ← state.generations.foldlM seedGeneration (fresh caps)
  state.rows.foldlM seedRow l

end InMemoryBudgetLedger

/-! ## Runs -/

inductive Op where
  | reserve (input : BudgetReservationInput)
  | commit (runId reservationId : String) (actual : BudgetActualUsage)
  | refund (runId reservationId : String)
  | cancelRun (runId : String)
  | generationFor (runId : String)
  | usageFor (runId : String)
  | usage
  | rows

inductive Answer where
  | row (r : BudgetResult)
  | cancelled (r : Except Exn Nat)
  | generation (n : Nat)
  | totals (t : BudgetUsageTotals)
  | rows (rs : List BudgetReservationRow)

/-- The run that a call is about. -/
def Op.run? : Op → Option String
  | .reserve input => some input.runId
  | .commit runId _ _ | .refund runId _ | .cancelRun runId | .generationFor runId
  | .usageFor runId => some runId
  | .usage | .rows => none

/-- A call, with what the clock shows when it reads it. -/
structure Call where
  op : Op
  now : Number

namespace InMemoryBudgetLedger

def step (l : InMemoryBudgetLedger) (c : Call) : Answer × InMemoryBudgetLedger :=
  match c.op with
  | .reserve input => ((l.reserve c.now input).map .row id)
  | .commit runId reservationId actual => (l.commit c.now runId reservationId actual).map .row id
  | .refund runId reservationId => (l.refund c.now runId reservationId).map .row id
  | .cancelRun runId => (l.cancelRun runId).map .cancelled id
  | .generationFor runId => (.generation (l.generationFor runId), l)
  | .usageFor runId => (.totals (l.usageFor runId), l)
  | .usage => (.totals l.usage, l)
  | .rows => (.rows l.allRows, l)

def next (l : InMemoryBudgetLedger) (c : Call) : InMemoryBudgetLedger := (l.step c).2

def run (l : InMemoryBudgetLedger) (calls : List Call) : InMemoryBudgetLedger :=
  Machine.run next l calls

/-- The calls with their answers. -/
def transcript (l : InMemoryBudgetLedger) : List Call → List (Call × Answer)
  | [] => []
  | c :: cs => (c, (l.step c).1) :: (l.step c).2.transcript cs

/-- A call leaves the ledger alone, or records, commits or refunds one row, or raises one run's
generation. -/
theorem next_cases (l : InMemoryBudgetLedger) (c : Call) :
    l.next c = l ∨
    (∃ input r, c.op = .reserve input ∧ input.check = .ok r ∧
      l.row? r.runId r.reservationId = none ∧ l.generationFor r.runId ≤ r.generation ∧
      l.within ((l.usageFor r.runId).addTotals ⟨1, r.estimatedTokens, r.estimatedCostMicros⟩) ∧
      l.next c = l.setRow r.runId r.reservationId (r.row c.now)) ∨
    (∃ runId reservationId actual row a, c.op = .commit runId reservationId actual ∧
      l.row? runId reservationId = some row ∧ row.state = .reserved ∧ actual.check = some a ∧
      l.next c = l.setRow runId reservationId (row.committed a c.now)) ∨
    (∃ runId reservationId row, c.op = .refund runId reservationId ∧
      l.row? runId reservationId = some row ∧ row.state = .reserved ∧
      l.next c = l.setRow runId reservationId (row.refunded c.now)) ∨
    (∃ runId, c.op = .cancelRun runId ∧ runIdRe runId = true ∧
      l.next c = { l with generations := l.generations.set runId (plus (l.generationFor runId) 1) }) := by
  obtain ⟨op, now⟩ := c
  cases op with
  | reserve input =>
    rcases l.reserve_cases now input with ⟨h, -⟩ | ⟨r, hc, hrow, hgen, hcap, h⟩
    · exact .inl h
    · exact .inr (.inl ⟨input, r, rfl, hc, hrow, hgen, hcap, congrArg Prod.snd h⟩)
  | commit runId reservationId actual =>
    rcases l.commit_cases now runId reservationId actual with h | ⟨row, a, hrow, hs, ha, h⟩
    · exact .inl h
    · exact .inr (.inr (.inl
        ⟨runId, reservationId, actual, row, a, rfl, hrow, hs, ha, congrArg Prod.snd h⟩))
  | refund runId reservationId =>
    rcases l.refund_cases now runId reservationId with h | ⟨row, hrow, hs, h⟩
    · exact .inl h
    · exact .inr (.inr (.inr (.inl
        ⟨runId, reservationId, row, rfl, hrow, hs, congrArg Prod.snd h⟩)))
  | cancelRun runId =>
    by_cases h : runIdRe runId
    · refine .inr (.inr (.inr (.inr ⟨runId, rfl, h, ?_⟩)))
      simp [next, step, cancelRun, h]
    · refine .inl ?_
      simp [next, step, cancelRun, h]
  | generationFor | usageFor | usage | rows => exact .inl rfl

theorem caps_next (l : InMemoryBudgetLedger) (c : Call) : (l.next c).caps = l.caps := by
  rcases l.next_cases c with heq | ⟨input, q, -, -, -, -, -, heq⟩ |
    ⟨runId, i, actual, row, a, -, -, -, -, heq⟩ | ⟨runId, i, row, -, -, -, heq⟩ |
    ⟨runId, -, -, heq⟩ <;> rw [heq] <;> rfl

theorem caps_run (l : InMemoryBudgetLedger) (calls : List Call) : (l.run calls).caps = l.caps :=
  Machine.invariant (I := fun m => m.caps = l.caps) (fun m c h => (caps_next m c).trans h) rfl calls

end InMemoryBudgetLedger

end PrReviewer.Gateway
