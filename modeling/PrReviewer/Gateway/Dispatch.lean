import PrReviewer.Gateway.Call

/-!
# One dispatch, one settlement

A dispatch goes from the broker to the transport to its end, and its end settles its own row. A
`Stretch` is what one piece of its code does: it waits, or it ends with its live row settled. The
invariant `Inv` ties the rows in state `reserved` to the dispatches that have not ended, one each, and
these to the registry, so that a replay joins the dispatch in flight or finds a settled row.

`single_dispatch` collects what holds after every sequence of events.
-/

open Js List

namespace PrReviewer.Gateway

/-- Every row is stored under its own ids. -/
def InMemoryBudgetLedger.Placed (l : InMemoryBudgetLedger) : Prop :=
  ∀ r i row, l.row? r i = some row → row.runId = r ∧ row.reservationId = i

variable {l : InMemoryBudgetLedger}

theorem InMemoryBudgetLedger.Placed.setRow (h : l.Placed)
    {row : BudgetReservationRow} {runId reservationId : String}
    (hid : row.runId = runId ∧ row.reservationId = reservationId) :
    (l.setRow runId reservationId row).Placed := by
  intro r i x hx
  rw [row?_setRow] at hx
  split at hx
  · next heq => cases hx; exact ⟨hid.1.trans heq.1.symm, hid.2.trans heq.2.symm⟩
  · exact h r i x hx

theorem InMemoryBudgetLedger.live_eq_true {r i : String} :
    l.live r i = true ↔ ∃ row, l.row? r i = some row ∧ row.state = .reserved := by
  unfold live
  cases l.row? r i <;> simp

theorem InMemoryBudgetLedger.live_setRow {r i : String}
    {row : BudgetReservationRow} (x y : String) :
    (l.setRow r i row).live x y =
      if x = r ∧ y = i then decide (row.state = .reserved) else l.live x y := by
  unfold live
  rw [row?_setRow]
  split <;> rfl

def Progress.ended : Progress → Bool
  | .settled _ => true
  | _ => false

def Progress.atBroker : Progress → Bool
  | .broker => true
  | _ => false

namespace ModelGateway

variable {g g' : ModelGateway} {n k : Nat} {d : Dispatch} {now : Number} {r i : String}
  {row : BudgetReservationRow} {p : Party} {p' : Progress}

/-! ## What the ledger calls write -/

/-- The gateway after `party` settled the row `r`, `i`, which is `row` now. -/
def closed (g : ModelGateway) (party : Party) (r i : String) (row : BudgetReservationRow) :
    ModelGateway :=
  { g with ledger := g.ledger.setRow r i row, log := g.log ++ [.settled party r i] }

theorem wrote_self (g : ModelGateway) : g.wrote p r i g.ledger = g := by
  unfold wrote
  rw [Bool.and_not_self]
  rfl

theorem wrote_settled {row' : BudgetReservationRow} (hlive : g.ledger.live r i = true)
    (hs : row'.state ≠ .reserved) :
    g.wrote p r i (g.ledger.setRow r i row') = g.closed p r i row' := by
  have hdead : (g.ledger.setRow r i row').live r i = false := by
    simp [InMemoryBudgetLedger.live_setRow, hs]
  unfold wrote closed
  rw [hlive, hdead]
  rfl

/-- A refund of a live row settles it. -/
theorem wrote_refund (now : Number) (hrow : g.ledger.row? r i = some row) (hs : row.state = .reserved) :
    g.wrote p r i (g.ledger.refund now r i).2 = g.closed p r i (row.refunded now) := by
  have hlive := InMemoryBudgetLedger.live_eq_true.mpr ⟨row, hrow, hs⟩
  have hrefund : (g.ledger.refund now r i).2 = g.ledger.setRow r i (row.refunded now) := by
    simp [InMemoryBudgetLedger.refund, hrow, hs]
  rw [hrefund]
  exact wrote_settled hlive (by simp [BudgetReservationRow.refunded])

/-- A refund of a row that is not live changes nothing. -/
theorem wrote_refund_of_not_live (h : g.ledger.live r i = false) :
    g.wrote p r i (g.ledger.refund now r i).2 = g := by
  rcases g.ledger.refund_cases now r i with heq | ⟨row, hrow, hs, -⟩
  · rw [heq, wrote_self]
  · rw [InMemoryBudgetLedger.live_eq_true.mpr ⟨row, hrow, hs⟩] at h
    cases h

/-- A commit of a live row is refused and changes nothing, or it settles the row. -/
theorem commit_live (now : Number) (hrow : g.ledger.row? r i = some row) (hs : row.state = .reserved)
    (actual : BudgetActualUsage) :
    (∃ e, commit p r i now actual g = .ok (.error e) g) ∨
      ∃ a, commit p r i now actual g =
        .ok (.ok (row.committed a now)) (g.closed p r i (row.committed a now)) := by
  have hlive := InMemoryBudgetLedger.live_eq_true.mpr ⟨row, hrow, hs⟩
  cases ha : actual.check with
  | none =>
    let e : BudgetRefusal := ⟨.invalidRequest,
      "settled usage must be safe non-negative integers with at least one request"⟩
    have hcommit : g.ledger.commit now r i actual = (.error e, g.ledger) := by
      simp [InMemoryBudgetLedger.commit, hrow, ha, refusal, e]
    refine .inl ⟨e, ?_⟩
    change EStateM.Result.ok (g.ledger.commit now r i actual).1
      (g.wrote p r i (g.ledger.commit now r i actual).2) = _
    rw [hcommit, wrote_self]
  | some a =>
    have hcommit : g.ledger.commit now r i actual =
        (.ok (row.committed a now), g.ledger.setRow r i (row.committed a now)) := by
      simp [InMemoryBudgetLedger.commit, hrow, ha, hs]
    refine .inr ⟨a, ?_⟩
    change EStateM.Result.ok (g.ledger.commit now r i actual).1
      (g.wrote p r i (g.ledger.commit now r i actual).2) = _
    rw [hcommit, wrote_settled hlive (by simp [BudgetReservationRow.committed])]

/-! ## Stretches of a dispatch -/

/-- What a stretch of the dispatch `n` does, that invokes the transport as `sent` says: it waits, or it
ends with its row settled. -/
inductive Stretch (g : ModelGateway) (n : Nat) (d : Dispatch) (sent : List Effect) :
    Progress → ModelGateway → Prop
  | waits (p : Progress) (hp : p = .broker ∨ p = .transport) :
    Stretch g n d sent p { g with log := g.log ++ sent }
  | ends (out : GatewayCallOutcome) (row : BudgetReservationRow)
    (hid : row.runId = d.runId ∧ row.reservationId = d.reservationId)
    (hs : row.state ≠ .reserved) :
    Stretch g n d sent (.settled (.ok out))
      (closed { g with log := g.log ++ sent } (.dispatch n) d.runId d.reservationId row)

/-- The dispatch has a live row of its own. -/
def Live (g : ModelGateway) (d : Dispatch) : Prop :=
  ∃ row, g.ledger.row? d.runId d.reservationId = some row ∧ row.state = .reserved ∧
    row.runId = d.runId ∧ row.reservationId = d.reservationId

/-- A stretch that refunds and returns ends the dispatch. -/
theorem ends_refund (h : g.Live d) (sent : List Effect) (out : GatewayCallOutcome) (now : Number) :
    Stretch g n d sent (.settled (.ok out))
      (wrote { g with log := g.log ++ sent } (.dispatch n) d.runId d.reservationId
        (g.ledger.refund now d.runId d.reservationId).2) := by
  obtain ⟨row, hrow, hs, hid⟩ := h
  have heq := wrote_refund (g := { g with log := g.log ++ sent }) (p := .dispatch n) now hrow hs
  rw [heq]
  exact .ends out _ hid (by simp [BudgetReservationRow.refunded])

/-- A second refund changes nothing. -/
theorem ends_refund_twice (h : g.Live d) (sent : List Effect) (out : GatewayCallOutcome)
    (now : Number) :
    let g₁ := wrote { g with log := g.log ++ sent } (.dispatch n) d.runId d.reservationId
      (g.ledger.refund now d.runId d.reservationId).2
    Stretch g n d sent (.settled (.ok out))
      (g₁.wrote (.dispatch n) d.runId d.reservationId
        (g₁.ledger.refund now d.runId d.reservationId).2) := by
  obtain ⟨row, hrow, hs, hid⟩ := h
  have heq := wrote_refund (g := { g with log := g.log ++ sent }) (p := .dispatch n) now hrow hs
  intro g₁
  have hg₁ : g₁ = closed { g with log := g.log ++ sent } (.dispatch n) d.runId d.reservationId
      (row.refunded now) := heq
  have hdead : g₁.ledger.live d.runId d.reservationId = false := by
    rw [hg₁]
    simp [closed, InMemoryBudgetLedger.live_setRow, BudgetReservationRow.refunded]
  rw [wrote_refund_of_not_live hdead, hg₁]
  exact .ends out _ hid (by simp [BudgetReservationRow.refunded])

theorem waits_nil (hp : p' = .broker ∨ p' = .transport) : Stretch g n d [] p' g := by
  have h : Stretch g n d [] p' { g with log := g.log ++ [] } := .waits p' hp
  rwa [append_nil] at h

theorem ends_refund_nil (h : g.Live d) (out : GatewayCallOutcome) (now : Number) :
    Stretch g n d [] (.settled (.ok out))
      (g.wrote (.dispatch n) d.runId d.reservationId
        (g.ledger.refund now d.runId d.reservationId).2) := by
  have h := ends_refund (n := n) h [] out now
  rwa [append_nil] at h

theorem ends_refund_twice_nil (h : g.Live d) (out : GatewayCallOutcome) (now : Number) :
    let g₁ := g.wrote (.dispatch n) d.runId d.reservationId
      (g.ledger.refund now d.runId d.reservationId).2
    Stretch g n d [] (.settled (.ok out))
      (g₁.wrote (.dispatch n) d.runId d.reservationId
        (g₁.ledger.refund now d.runId d.reservationId).2) := by
  have h := ends_refund_twice (n := n) h [] out now
  rwa [append_nil] at h

/-- The first stretch: it awaits the broker, or the broker threw. -/
theorem begin_stretch (now : Number) (h : g.Live d) (resolve : Except Exn Unit) :
    ∃ p g', dispatchTry n d now (begin resolve) g = .ok p g' ∧ Stretch g n d [] p g' := by
  cases resolve with
  | error e => exact ⟨_, _, rfl, ends_refund_nil h _ now⟩
  | ok u => exact ⟨_, _, rfl, waits_nil (.inl rfl)⟩

/-- The stretch after the broker's answer: it ends without the transport, or invokes it once. -/
theorem resolved_stretch (now : Number) (h : g.Live d) (answer : Except Exn Resolution) (chat : Except Exn Unit) :
    ∃ sent p g', dispatchTry n d now (resolved n d now answer chat) g = .ok p g' ∧
      Stretch g n d sent p g' ∧ p ≠ .broker ∧
      ((sent = [] ∧ p ≠ .transport) ∨ sent = [.transport n d.runId d.reservationId]) := by
  cases answer with
  | error e => exact ⟨[], _, _, rfl, ends_refund_nil h _ now, by simp, .inl ⟨rfl, by simp⟩⟩
  | ok answer =>
    cases answer with
    | refused code =>
      exact ⟨[], _, _, rfl, ends_refund_nil h _ now, by simp, .inl ⟨rfl, by simp⟩⟩
    | material =>
      cases chat with
      | error e => exact ⟨_, _, _, rfl, ends_refund h _ _ now, by simp, .inr rfl⟩
      | ok u => exact ⟨_, _, _, rfl, .waits .transport (.inr rfl), by simp, .inr rfl⟩

/-- A response without a secret and with a usage record: the row is committed, or refunded. -/
theorem committed_stretch (h : g.Live d) (usage : UsageRecord) (attemptClock : Except Exn Unit) :
    ∃ out g', dispatchTry n d now
        (answered n d now (.ok (.ok false (some usage))) (.ok ()) attemptClock) g =
      .ok (.settled (.ok out)) g' ∧ Stretch g n d [] (.settled (.ok out)) g' := by
  obtain ⟨row, hrow, hs, hid⟩ := h
  have hbody : ∀ c g₁, commit (.dispatch n) d.runId d.reservationId now
      ⟨1, usage.inputTokens + usage.outputTokens, usage.costMicros⟩ g = .ok c g₁ →
      answered n d now (.ok (.ok false (some usage))) (.ok ()) attemptClock g =
        concluded n d now usage c g₁ := by
    intro c g₁ hc
    change (match commit _ _ _ _ _ g with
      | .ok a s => concluded n d now usage a s
      | .error e s => .error e s) = _
    rw [hc]
  rcases commit_live (p := .dispatch n) now hrow hs
    ⟨1, usage.inputTokens + usage.outputTokens, usage.costMicros⟩ with ⟨e, he⟩ | ⟨a, ha⟩
  · rw [dispatchTry, Action.tryCatch_congr (hbody _ _ he)]
    exact ⟨_, _, rfl, ends_refund_nil ⟨row, hrow, hs, hid⟩ _ now⟩
  · rw [dispatchTry, Action.tryCatch_congr (hbody _ _ ha)]
    have hend := @Stretch.ends g n d [] (.ok usage)
      (row.committed a now) hid (by simp [BudgetReservationRow.committed])
    rw [append_nil] at hend
    exact ⟨_, _, rfl, hend⟩

/-- The stretch after the transport's answer ends the dispatch. -/
theorem answered_stretch (now : Number) (h : g.Live d) (answer : Except Exn ChatRequestOutcome)
    (usageClock attemptClock : Except Exn Unit) :
    ∃ out g', dispatchTry n d now (answered n d now answer usageClock attemptClock) g =
      .ok (.settled (.ok out)) g' ∧ Stretch g n d [] (.settled (.ok out)) g' := by
  cases answer with
  | error e => exact ⟨_, _, rfl, ends_refund_nil h _ now⟩
  | ok answer =>
    cases answer with
    | failure kind =>
      cases attemptClock with
      | error e => exact ⟨_, _, rfl, ends_refund_twice_nil h _ now⟩
      | ok u => exact ⟨_, _, rfl, ends_refund_nil h _ now⟩
    | ok carriesSecret usage =>
      cases carriesSecret with
      | true =>
        cases attemptClock with
        | error e => exact ⟨_, _, rfl, ends_refund_twice_nil h _ now⟩
        | ok u => exact ⟨_, _, rfl, ends_refund_nil h _ now⟩
      | false =>
        cases usageClock with
        | error e => exact ⟨_, _, rfl, ends_refund_nil h _ now⟩
        | ok u =>
          cases usage with
          | none =>
            cases attemptClock with
            | error e => exact ⟨_, _, rfl, ends_refund_twice_nil h _ now⟩
            | ok u => exact ⟨_, _, rfl, ends_refund_nil h _ now⟩
          | some usage =>
            exact committed_stretch h usage attemptClock

/-! ## The invariant -/

/-- The rows: each dispatch has its own, live until it ends, and there are no other live rows. -/
structure Rows (g : ModelGateway) : Prop where
  placed : g.ledger.Placed
  distinct : ∀ (n m : Nat) (d e : Dispatch), g.dispatches[n]? = some d → g.dispatches[m]? = some e →
    d.runId = e.runId → d.reservationId = e.reservationId → n = m
  recorded : ∀ (n : Nat) (d : Dispatch), g.dispatches[n]? = some d →
    ∃ row, g.ledger.row? d.runId d.reservationId = some row ∧
      (row.state = .reserved ↔ d.progress.ended = false)
  owned : ∀ r i, g.ledger.live r i = true →
    ∃ (n : Nat) (d : Dispatch), g.dispatches[n]? = some d ∧ d.runId = r ∧ d.reservationId = i

/-- The registry: a dispatch is in it until it ends, under its own ids. -/
structure Registry (g : ModelGateway) : Prop where
  joinable : ∀ (n : Nat) (d : Dispatch), g.dispatches[n]? = some d → d.progress.ended = false →
    g.joined d.runId d.reservationId = some n
  registered : ∀ r i n, g.joined r i = some n →
    ∃ d : Dispatch, g.dispatches[n]? = some d ∧ d.runId = r ∧ d.reservationId = i

/-- The promises: none rejects, and a dispatch that has not ended is awaited. -/
structure Promises (g : ModelGateway) : Prop where
  fulfilled : ∀ (n : Nat) (d : Dispatch) e, g.dispatches[n]? = some d → d.progress ≠ .settled (.error e)
  awaited : ∀ (n : Nat) (d : Dispatch), g.dispatches[n]? = some d → d.progress.ended = false →
    ∃ r i, CallState.awaiting n r i ∈ g.calls
  returned : ∀ e, CallState.settled (.error e) ∉ g.calls

/-- The log: a dispatch invokes the transport once at most, and settles its row once, when it ends. -/
structure Logged (g : ModelGateway) : Prop where
  sent : ∀ n r i, Effect.transport n r i ∈ g.log →
    ∃ d : Dispatch, g.dispatches[n]? = some d ∧ d.runId = r ∧ d.reservationId = i
  once : ∀ (n : Nat) (d : Dispatch), g.dispatches[n]? = some d →
    g.log.count (.transport n d.runId d.reservationId) ≤ if d.progress.atBroker then 0 else 1
  own : ∀ p r i, Effect.settled p r i ∈ g.log →
    ∃ (n : Nat) (d : Dispatch), p = .dispatch n ∧ g.dispatches[n]? = some d ∧ d.runId = r ∧ d.reservationId = i
  settled : ∀ (n : Nat) (d : Dispatch), g.dispatches[n]? = some d →
    g.log.count (.settled (.dispatch n) d.runId d.reservationId) = if d.progress.ended then 1 else 0

structure Inv (g : ModelGateway) : Prop where
  rows : Rows g
  registry : Registry g
  promises : Promises g
  logged : Logged g

/-! ## Dispatches after a stretch -/

variable {m : Nat} {e : Dispatch} {sent : List Effect} {calls : List CallState} {ds : List Dispatch}

theorem of_setProgress
    (h : (g.setProgress n p').dispatches[m]? = some e) :
    ∃ d, g.dispatches[m]? = some d ∧ e = if m = n then { d with progress := p' } else d := by
  change (g.dispatches.modify n _)[m]? = some e at h
  rw [List.getElem?_modify] at h
  cases hd : g.dispatches[m]? with
  | none => rw [hd] at h; cases h
  | some d =>
    rw [hd] at h
    refine ⟨d, rfl, ?_⟩
    by_cases hmn : m = n
    · subst hmn
      simpa using h.symm
    · rw [if_neg hmn]
      simpa [Ne.symm hmn] using h.symm

theorem to_setProgress (h : g.dispatches[m]? = some d) :
    (g.setProgress n p').dispatches[m]? =
      some (if m = n then { d with progress := p' } else d) := by
  change (g.dispatches.modify n _)[m]? = _
  rw [List.getElem?_modify, h]
  by_cases hmn : m = n
  · subst hmn; simp
  · simp [Ne.symm hmn, hmn]

/-- The ids of a dispatch stay. -/
theorem of_setProgress_ids
    (h : (g.setProgress n p').dispatches[m]? = some e) :
    ∃ d, g.dispatches[m]? = some d ∧ e.runId = d.runId ∧ e.reservationId = d.reservationId ∧
      e.progress = if m = n then p' else d.progress := by
  obtain ⟨d, hd, rfl⟩ := of_setProgress h
  refine ⟨d, hd, ?_⟩
  split <;> simp

theorem to_setProgress_ids (p' : Progress) (h : g.dispatches[m]? = some d) :
    ∃ e, (g.setProgress n p').dispatches[m]? = some e ∧ e.runId = d.runId ∧
      e.reservationId = d.reservationId := by
  refine ⟨_, to_setProgress h, ?_⟩
  split <;> simp

/-- What a stretch of the dispatch `n` changes. -/
structure Changes (g : ModelGateway) (n : Nat) (d : Dispatch) (p : Progress) (g' : ModelGateway) :
    Prop where
  placed : g'.ledger.Placed
  row : ∃ row, g'.ledger.row? d.runId d.reservationId = some row ∧
    (row.state = .reserved ↔ p.ended = false)
  others : ∀ r i, ¬(r = d.runId ∧ i = d.reservationId) → g'.ledger.row? r i = g.ledger.row? r i
  inFlight : g'.inFlight = g.inFlight
  dispatches : g'.dispatches = g.dispatches
  calls : g'.calls = g.calls
  fulfilled : ∀ e, p ≠ .settled (.error e)

theorem Stretch.changes (h : Stretch g n d sent p' g') (hg : g.ledger.Placed)
    (hlive : g.Live d) : Changes g n d p' g' := by
  cases h with
  | waits p hp =>
    obtain ⟨row, hrow, hs, -⟩ := hlive
    refine ⟨hg, ⟨row, hrow, by rcases hp with rfl | rfl <;> simp [hs, Progress.ended]⟩,
      fun _ _ _ => rfl, rfl, rfl, rfl, fun e => ?_⟩
    rcases hp with rfl | rfl <;> simp
  | ends out row hid hs =>
    refine ⟨hg.setRow hid, ⟨row, by simp [closed, InMemoryBudgetLedger.row?_setRow], ?_⟩,
      fun r i hne => ?_, rfl, rfl, rfl, fun e => by simp⟩
    · simp [hs, Progress.ended]
    · change (g.ledger.setRow _ _ _).row? r i = _
      rw [InMemoryBudgetLedger.row?_setRow, if_neg hne]

theorem live_of_active (h : Rows g) (hd : g.dispatches[n]? = some d)
    (ha : d.progress.ended = false) : g.Live d := by
  obtain ⟨row, hrow, hs⟩ := h.recorded n d hd
  exact ⟨row, hrow, hs.mpr ha, h.placed _ _ _ hrow⟩

theorem rows_stretch (h : Rows g) (hd : g.dispatches[n]? = some d) (ha : d.progress.ended = false)
    (hc : Changes g n d p' g') : Rows (g'.setProgress n p') where
  placed := hc.placed
  distinct := by
    intro m₁ m₂ e₁ e₂ h₁ h₂ hr hi
    obtain ⟨d₁, hd₁, hr₁, hi₁, -⟩ := of_setProgress_ids h₁
    obtain ⟨d₂, hd₂, hr₂, hi₂, -⟩ := of_setProgress_ids h₂
    rw [hc.dispatches] at hd₁ hd₂
    exact h.distinct m₁ m₂ d₁ d₂ hd₁ hd₂ (by rw [← hr₁, ← hr₂, hr]) (by rw [← hi₁, ← hi₂, hi])
  recorded := by
    intro m e he
    obtain ⟨x, hx, hr, hi, hp⟩ := of_setProgress_ids he
    rw [hc.dispatches] at hx
    rw [hr, hi, hp]
    change ∃ row, g'.ledger.row? x.runId x.reservationId = some row ∧ _
    by_cases hm : m = n
    · subst hm
      obtain rfl : x = d := Option.some.inj (hx.symm.trans hd)
      rw [if_pos rfl]
      exact hc.row
    · rw [if_neg hm, hc.others _ _ fun heq => hm (h.distinct m n x d hx hd heq.1 heq.2)]
      exact h.recorded m x hx
  owned := by
    intro r i hl
    change g'.ledger.live r i = true at hl
    by_cases hri : r = d.runId ∧ i = d.reservationId
    · obtain ⟨rfl, rfl⟩ := hri
      obtain ⟨e, he, hr, hi⟩ := to_setProgress_ids (g := g') (n := n) p'
        (by rw [hc.dispatches]; exact hd)
      exact ⟨n, e, he, hr, hi⟩
    · have hl' : g.ledger.live r i = true := by
        unfold InMemoryBudgetLedger.live at hl ⊢
        rwa [hc.others r i hri] at hl
      obtain ⟨m, x, hx, hr, hi⟩ := h.owned r i hl'
      obtain ⟨e, he, hr', hi'⟩ := to_setProgress_ids (g := g') (n := n) p'
        (by rw [hc.dispatches]; exact hx)
      exact ⟨m, e, he, hr'.trans hr, hi'.trans hi⟩

/-- A dispatch that has not ended after the stretch had not ended before. -/
theorem active_of_setProgress (hd : g.dispatches[n]? = some d)
    (ha : d.progress.ended = false) (h : (g.setProgress n p').dispatches[m]? = some e)
    (he : e.progress.ended = false) :
    ∃ x, g.dispatches[m]? = some x ∧ e.runId = x.runId ∧ e.reservationId = x.reservationId ∧
      x.progress.ended = false := by
  obtain ⟨x, hx, hr, hi, hp⟩ := of_setProgress_ids h
  refine ⟨x, hx, hr, hi, ?_⟩
  by_cases hm : m = n
  · subst hm
    rw [hd] at hx
    cases hx
    exact ha
  · rwa [hp, if_neg hm] at he

theorem registry_stretch (h : Registry g) (hd : g.dispatches[n]? = some d)
    (ha : d.progress.ended = false) (hc : Changes g n d p' g') : Registry (g'.setProgress n p') where
  joinable := by
    intro m e he hactive
    obtain ⟨x, hx, hr, hi, hxa⟩ :=
      active_of_setProgress (by rw [hc.dispatches]; exact hd) ha he hactive
    rw [hc.dispatches] at hx
    change (g'.inFlight.get? e.runId).bind _ = _
    rw [hc.inFlight, hr, hi]
    exact h.joinable m x hx hxa
  registered := by
    intro r i m hm
    change (g'.inFlight.get? r).bind _ = _ at hm
    rw [hc.inFlight] at hm
    obtain ⟨x, hx, hr, hi⟩ := h.registered r i m hm
    obtain ⟨e, he, hr', hi'⟩ := to_setProgress_ids (g := g') (n := n) p'
      (by rw [hc.dispatches]; exact hx)
    exact ⟨e, he, hr'.trans hr, hi'.trans hi⟩

theorem promises_stretch (h : Promises g) (hd : g.dispatches[n]? = some d)
    (ha : d.progress.ended = false) (hc : Changes g n d p' g') : Promises (g'.setProgress n p') where
  fulfilled := by
    intro m e x he
    obtain ⟨y, hy, -, -, hp⟩ := of_setProgress_ids he
    rw [hc.dispatches] at hy
    rw [hp]
    split
    · exact hc.fulfilled x
    · exact h.fulfilled m y x hy
  awaited := by
    intro m e he hactive
    obtain ⟨x, hx, -, -, hxa⟩ :=
      active_of_setProgress (by rw [hc.dispatches]; exact hd) ha he hactive
    rw [hc.dispatches] at hx
    change ∃ r i, _ ∈ g'.calls
    rw [hc.calls]
    exact h.awaited m x hx hxa
  returned := by
    intro e
    change _ ∉ g'.calls
    rw [hc.calls]
    exact h.returned e

/-- What a stretch adds to the log. -/
def added (n : Nat) (d : Dispatch) (sent : List Effect) (p : Progress) : List Effect :=
  sent ++ if p.ended then [.settled (.dispatch n) d.runId d.reservationId] else []

theorem Stretch.log_eq (h : Stretch g n d sent p' g') :
    g'.log = g.log ++ added n d sent p' := by
  cases h with
  | waits p hp => rcases hp with rfl | rfl <;> simp [added, Progress.ended]
  | ends out row hid hs => simp [closed, added, Progress.ended]

/-- The stretch invokes the transport only on leaving the broker, and does not go back there. -/
def Sends (n : Nat) (d : Dispatch) (sent : List Effect) (p : Progress) : Prop :=
  (sent = [] ∧ (p.atBroker = true → d.progress.atBroker = true)) ∨
    (sent = [.transport n d.runId d.reservationId] ∧ d.progress.atBroker = true ∧
      p.atBroker = false)

theorem count_added_of_ne (hs : Sends n d sent p') {x : Effect}
    (ht : x ≠ .transport n d.runId d.reservationId)
    (hx : x ≠ .settled (.dispatch n) d.runId d.reservationId) :
    (added n d sent p').count x = 0 := by
  unfold added
  rcases hs with ⟨rfl, -⟩ | ⟨rfl, -, -⟩ <;> split <;>
    simp [ht.symm, hx.symm]

theorem mem_added (hs : Sends n d sent p') {x : Effect}
    (hx : x ∈ added n d sent p') : x = .transport n d.runId d.reservationId ∨
      x = .settled (.dispatch n) d.runId d.reservationId := by
  unfold added at hx
  rcases hs with ⟨rfl, -⟩ | ⟨rfl, -, -⟩ <;> split at hx <;> simp_all

theorem logged_stretch (h : Logged g) (hd : g.dispatches[n]? = some d)
    (ha : d.progress.ended = false) (hs : Stretch g n d sent p' g') (hsent : Sends n d sent p')
    (hdisp : g'.dispatches = g.dispatches) : Logged (g'.setProgress n p') where
  sent := by
    intro m r i hm
    change _ ∈ g'.log at hm
    rw [hs.log_eq, mem_append] at hm
    have hold : ∃ x : Dispatch, g.dispatches[m]? = some x ∧ x.runId = r ∧ x.reservationId = i := by
      rcases hm with hm | hm
      · exact h.sent m r i hm
      · rcases mem_added hsent hm with heq | heq
        · cases heq
          exact ⟨d, hd, rfl, rfl⟩
        · cases heq
    obtain ⟨x, hx, hr, hi⟩ := hold
    obtain ⟨e, he, hr', hi'⟩ := to_setProgress_ids (g := g') (n := n) p'
      (by rw [hdisp]; exact hx)
    exact ⟨e, he, hr'.trans hr, hi'.trans hi⟩
  once := by
    intro m e he
    obtain ⟨x, hx, hr, hi, hp⟩ := of_setProgress_ids he
    rw [hdisp] at hx
    change g'.log.count _ ≤ _
    rw [hs.log_eq, count_append, hr, hi, hp]
    have hbefore := h.once m x hx
    by_cases hm : m = n
    · subst hm
      obtain rfl : x = d := Option.some.inj (hx.symm.trans hd)
      rw [if_pos rfl]
      rcases hsent with ⟨rfl, hback⟩ | ⟨rfl, hat, hnot⟩
      · have hzero : (added m x [] p').count (.transport m x.runId x.reservationId) = 0 := by
          unfold added
          split <;> simp
        rw [hzero, Nat.add_zero]
        refine Nat.le_trans hbefore ?_
        cases hp' : p'.atBroker with
        | true => rw [hback hp']
        | false => cases x.progress.atBroker <;> simp
      · have hone : (added m x [.transport m x.runId x.reservationId] p').count
            (.transport m x.runId x.reservationId) = 1 := by
          unfold added
          split <;> simp
        rw [hat, if_pos rfl] at hbefore
        rw [hone, hnot, if_neg Bool.false_ne_true]
        omega
    · rw [if_neg hm, count_added_of_ne hsent (by simp [hm]) (by simp), Nat.add_zero]
      exact hbefore
  own := by
    intro p r i hm
    change _ ∈ g'.log at hm
    rw [hs.log_eq, mem_append] at hm
    have hold : ∃ (m : Nat) (x : Dispatch), p = .dispatch m ∧ g.dispatches[m]? = some x ∧
        x.runId = r ∧ x.reservationId = i := by
      rcases hm with hm | hm
      · exact h.own p r i hm
      · rcases mem_added hsent hm with heq | heq
        · cases heq
        · cases heq
          exact ⟨n, d, rfl, hd, rfl, rfl⟩
    obtain ⟨m, x, hp, hx, hr, hi⟩ := hold
    obtain ⟨e, he, hr', hi'⟩ := to_setProgress_ids (g := g') (n := n) p'
      (by rw [hdisp]; exact hx)
    exact ⟨m, e, hp, he, hr'.trans hr, hi'.trans hi⟩
  settled := by
    intro m e he
    obtain ⟨x, hx, hr, hi, hp⟩ := of_setProgress_ids he
    rw [hdisp] at hx
    change g'.log.count _ = _
    rw [hs.log_eq, count_append, hr, hi, hp, h.settled m x hx]
    by_cases hm : m = n
    · subst hm
      obtain rfl : x = d := Option.some.inj (hx.symm.trans hd)
      rw [if_pos rfl, ha, if_neg Bool.false_ne_true, Nat.zero_add]
      unfold added
      rcases hsent with ⟨rfl, -⟩ | ⟨rfl, -, -⟩ <;> split <;> simp
    · rw [if_neg hm, count_added_of_ne hsent (by simp) (by simp [hm]), Nat.add_zero]

theorem inv_stretch (h : Inv g) (hd : g.dispatches[n]? = some d)
    (ha : d.progress.ended = false) (hs : Stretch g n d sent p' g') (hsent : Sends n d sent p') :
    Inv (g'.setProgress n p') := by
  have hc := hs.changes h.rows.placed (live_of_active h.rows hd ha)
  exact ⟨rows_stretch h.rows hd ha hc, registry_stretch h.registry hd ha hc,
    promises_stretch h.promises hd ha hc, logged_stretch h.logged hd ha hs hsent hc.dispatches⟩

/-! ## Calls -/

theorem reserve_eq (request : BudgetReservationInput) :
    reserve request now g =
      match (g.ledger.reserve now request).1 with
      | .error e => .ok (.error (.refused (.budget e.code) e.reason))
          { g with ledger := (g.ledger.reserve now request).2 }
      | .ok row =>
        if row.state ≠ .reserved then
          .ok (.error (.refused .reservationSettled
            "this reservation id was already settled; a retried request must use a fresh reservation id"))
            { g with ledger := (g.ledger.reserve now request).2 }
        else .ok (.ok row) { g with ledger := (g.ledger.reserve now request).2 } := by
  cases h : (g.ledger.reserve now request).1 with
  | error e =>
    rw [reserve, Action.get_bind, h]
    rfl
  | ok row =>
    rw [reserve, Action.get_bind, h]
    dsimp only
    split <;> rfl

/-- A call returns early and changes nothing, or it goes on with a live row, which is a recorded one or
a new one. -/
theorem reserve_cases (now : Number) (request : BudgetReservationInput) (hg : g.ledger.Placed) :
    (∃ out, reserve request now g = .ok (.error out) g) ∨
    ∃ row l, reserve request now g = .ok (.ok row) { g with ledger := l } ∧
      row.state = .reserved ∧
      ((l = g.ledger ∧ g.ledger.row? row.runId row.reservationId = some row) ∨
        (l = g.ledger.setRow row.runId row.reservationId row ∧
          g.ledger.row? row.runId row.reservationId = none)) := by
  rw [reserve_eq]
  rcases g.ledger.reserve_cases now request with ⟨hl, hrow⟩ | ⟨q, hq, hnone, -, -, heq⟩
  · rw [hl]
    cases hr : (g.ledger.reserve now request).1 with
    | error e => exact .inl ⟨_, rfl⟩
    | ok row =>
      have hget := hrow row hr
      obtain ⟨hrun, hid⟩ := hg _ _ _ hget
      dsimp only
      split
      · exact .inl ⟨_, rfl⟩
      · next hs =>
        exact .inr ⟨row, g.ledger, rfl, Decidable.of_not_not hs, .inl ⟨rfl, by rw [hrun, hid, hget]⟩⟩
  · rw [heq]
    exact .inr ⟨q.row now, _, rfl, rfl, .inr ⟨rfl, hnone⟩⟩

theorem admit_cases (o : ModelGatewayOptions) (input : GatewayCallInput)
    (verdict : Except Exn CapabilityVerification) (now : Number) (g : ModelGateway) :
    (∃ out, admitCall o input verdict now g = .ok (.error out) g) ∨
      ∃ request, ∀ a s, reserve request now g = .ok a s →
        admitCall o input verdict now g = .ok a s := by
  by_cases hv : validateCallInput input = ""
  · cases verdict with
    | error e =>
      refine .inl ⟨gatewayError, ?_⟩
      unfold admitCall admission
      rw [if_neg (not_not_intro hv)]
      rfl
    | ok v =>
      cases v with
      | error refused =>
        refine .inl ⟨.refused (.capability refused.1) refused.2, ?_⟩
        unfold admitCall admission
        rw [if_neg (not_not_intro hv)]
        rfl
      | ok u =>
        by_cases hp : input.modelProfile ∈ o.profiles
        · refine .inr ⟨reservation o input (g.ledger.generationFor input.runId), fun a s h => ?_⟩
          unfold admitCall admission
          rw [if_neg (not_not_intro hv)]
          simp only [if_neg (not_not_intro hp)]
          exact Action.tryCatch_ok h
        · refine .inl ⟨.refused .unknownProfile
            "the token's model profile has no gateway endpoint configuration", ?_⟩
          unfold admitCall admission
          rw [if_neg (not_not_intro hv)]
          simp only [if_pos hp]
          rfl
  · refine .inl ⟨.refused (.budget .invalidRequest) (validateCallInput input), ?_⟩
    unfold admitCall admission
    rw [if_pos hv]
    rfl

/-! ## Steps that leave the dispatches alone -/

/-- The calls may change, as long as none rejects and the awaited dispatches are still awaited. -/
theorem inv_calls (h : Inv g) {calls : List CallState}
    (hawait : ∀ (n : Nat) (d : Dispatch) r i, g.dispatches[n]? = some d → d.progress.ended = false →
      CallState.awaiting n r i ∈ g.calls → CallState.awaiting n r i ∈ calls)
    (hret : ∀ e, CallState.settled (.error e) ∉ calls) : Inv { g with calls := calls } :=
  ⟨⟨h.rows.placed, h.rows.distinct, h.rows.recorded, h.rows.owned⟩,
    ⟨h.registry.joinable, h.registry.registered⟩,
    ⟨h.promises.fulfilled, fun n d hd ha => by
      obtain ⟨r, i, hmem⟩ := h.promises.awaited n d hd ha
      exact ⟨r, i, hawait n d r i hd ha hmem⟩, hret⟩,
    ⟨h.logged.sent, h.logged.once, h.logged.own, h.logged.settled⟩⟩

/-- The ledger may change, as long as its rows stay. -/
theorem inv_ledger (h : Inv g) {l : InMemoryBudgetLedger} (hl : l.rows = g.ledger.rows) :
    Inv { g with ledger := l } := by
  have hrow : ∀ r i, l.row? r i = g.ledger.row? r i := by
    intro r i
    rw [InMemoryBudgetLedger.row?, hl]
    rfl
  have hlive : ∀ r i, l.live r i = g.ledger.live r i := by
    intro r i
    rw [InMemoryBudgetLedger.live, hrow]
    rfl
  refine ⟨⟨fun r i row hr => ?_, h.rows.distinct, fun n d hd => ?_, fun r i hr => ?_⟩,
    ⟨h.registry.joinable, h.registry.registered⟩,
    ⟨h.promises.fulfilled, h.promises.awaited, h.promises.returned⟩,
    ⟨h.logged.sent, h.logged.once, h.logged.own, h.logged.settled⟩⟩
  · rw [hrow] at hr
    exact h.rows.placed r i row hr
  · rw [hrow]
    exact h.rows.recorded n d hd
  · rw [hlive] at hr
    exact h.rows.owned r i hr

/-- The places of the calls after the call `k` was filled. -/
theorem awaiting_mem_set {s : CallState} (h : .awaiting n r i ∈ calls)
    (hk : calls[k]? ≠ some (.awaiting n r i)) : .awaiting n r i ∈ calls.set k s := by
  obtain ⟨j, hj⟩ := List.getElem?_of_mem h
  refine mem_of_getElem? (i := j) ?_
  rw [List.getElem?_set_ne, hj]
  rintro rfl
  exact hk hj

/-! ## A new dispatch -/

theorem of_concat (h : (ds ++ [d])[n]? = some e) :
    ds[n]? = some e ∨ n = ds.length ∧ e = d := by
  rcases Nat.lt_trichotomy n ds.length with hn | hn | hn
  · rw [List.getElem?_append_left hn] at h
    exact .inl h
  · subst hn
    rw [List.getElem?_concat_length] at h
    exact .inr ⟨rfl, (Option.some.inj h).symm⟩
  · rw [List.getElem?_eq_none (by simp; omega)] at h
    cases h

theorem to_concat (h : ds[n]? = some e) :
    (ds ++ [d])[n]? = some e := by
  rw [List.getElem?_append_left (List.getElem?_eq_some_iff.mp h).1, h]

/-- A reserved row that no dispatch has yet, and its new dispatch. -/
def led (g : ModelGateway) (row : BudgetReservationRow) : ModelGateway :=
  { g.register row.runId row.reservationId g.dispatches.length with
    ledger := g.ledger.setRow row.runId row.reservationId row
    dispatches := g.dispatches ++ [⟨row.runId, row.reservationId, .broker, false⟩]
    calls := g.calls ++ [.awaiting g.dispatches.length row.runId row.reservationId] }

theorem joined_register (g : ModelGateway) (r i : String) (n : Nat) (x y : String) :
    (g.register r i n).joined x y = if x = r ∧ y = i then some n else g.joined x y := by
  unfold joined register
  dsimp only
  rw [Map.get?_set]
  by_cases hx : x = r
  · subst hx
    cases g.inFlight.get? x <;> by_cases hy : y = i <;> simp [Map.get?_set, hy]
  · simp [hx]

theorem inv_led (h : Inv g) (hs : row.state = .reserved)
    (hnone : g.ledger.row? row.runId row.reservationId = none) : Inv (g.led row) := by
  -- a dispatch with these ids would have a row
  have hnew : ∀ (n : Nat) (d : Dispatch), g.dispatches[n]? = some d →
      ¬(d.runId = row.runId ∧ d.reservationId = row.reservationId) := by
    rintro n d hd ⟨hr, hi⟩
    obtain ⟨x, hx, -⟩ := h.rows.recorded n d hd
    rw [hr, hi, hnone] at hx
    cases hx
  have hlast : g.dispatches[g.dispatches.length]? = none := List.getElem?_eq_none (Nat.le_refl _)
  refine ⟨⟨h.rows.placed.setRow ⟨rfl, rfl⟩, fun m₁ m₂ e₁ e₂ h₁ h₂ hr hi => ?_, fun m e he => ?_,
    fun r i hl => ?_⟩, ⟨fun m e he ha => ?_, fun r i m hm => ?_⟩,
    ⟨fun m e x he => ?_, fun m e he ha => ?_, fun e he => ?_⟩,
    ⟨fun m r i hm => ?_, fun m e he => ?_, fun p r i hm => ?_, fun m e he => ?_⟩⟩
  · rcases of_concat h₁ with h₁ | ⟨rfl, rfl⟩ <;> rcases of_concat h₂ with h₂ | ⟨rfl, rfl⟩
    · exact h.rows.distinct _ _ _ _ h₁ h₂ hr hi
    · exact absurd ⟨hr, hi⟩ (hnew _ _ h₁)
    · exact absurd ⟨hr.symm, hi.symm⟩ (hnew _ _ h₂)
    · rfl
  · change ∃ x, (g.ledger.setRow _ _ row).row? e.runId e.reservationId = some x ∧ _
    rw [InMemoryBudgetLedger.row?_setRow]
    rcases of_concat he with he | ⟨-, rfl⟩
    · rw [if_neg (hnew m e he)]
      exact h.rows.recorded m e he
    · exact ⟨row, if_pos ⟨rfl, rfl⟩, by simp [hs, Progress.ended]⟩
  · change (g.ledger.setRow _ _ row).live r i = true at hl
    rw [InMemoryBudgetLedger.live_setRow] at hl
    split at hl
    · next heq => exact ⟨_, _, List.getElem?_concat_length, heq.1.symm, heq.2.symm⟩
    · obtain ⟨m, x, hx, hids⟩ := h.rows.owned r i hl
      exact ⟨m, x, to_concat hx, hids⟩
  · change (g.register _ _ _).joined _ _ = _
    rw [joined_register]
    rcases of_concat he with he | ⟨rfl, rfl⟩
    · rw [if_neg (hnew m e he)]
      exact h.registry.joinable m e he ha
    · exact if_pos ⟨rfl, rfl⟩
  · change (g.register _ _ _).joined _ _ = _ at hm
    rw [joined_register] at hm
    split at hm
    · next heq =>
      cases hm
      exact ⟨_, List.getElem?_concat_length, heq.1.symm, heq.2.symm⟩
    · obtain ⟨x, hx, hids⟩ := h.registry.registered r i m hm
      exact ⟨x, to_concat hx, hids⟩
  · rcases of_concat he with he | ⟨-, rfl⟩
    · exact h.promises.fulfilled m e x he
    · simp
  · rcases of_concat he with he | ⟨rfl, rfl⟩
    · obtain ⟨r, i, hmem⟩ := h.promises.awaited m e he ha
      exact ⟨r, i, mem_append_left _ hmem⟩
    · exact ⟨_, _, mem_append_right _ (mem_singleton_self _)⟩
  · rcases mem_append.mp he with he | he
    · exact h.promises.returned e he
    · simp at he
  · obtain ⟨x, hx, hids⟩ := h.logged.sent m r i hm
    exact ⟨x, to_concat hx, hids⟩
  · rcases of_concat he with he | ⟨rfl, rfl⟩
    · exact h.logged.once m e he
    · refine Nat.le_of_eq (count_eq_zero.mpr fun hm => ?_)
      obtain ⟨x, hx, -⟩ := h.logged.sent _ _ _ hm
      rw [hlast] at hx
      cases hx
  · obtain ⟨m, x, hp, hx, hids⟩ := h.logged.own p r i hm
    exact ⟨m, x, hp, to_concat hx, hids⟩
  · rcases of_concat he with he | ⟨rfl, rfl⟩
    · exact h.logged.settled m e he
    · refine count_eq_zero.mpr fun hm => ?_
      obtain ⟨m, x, hp, hx, -⟩ := h.logged.own _ _ _ hm
      cases hp
      rw [hlast] at hx
      cases hx

/-- What a stretch does, it does with other calls and another registry. -/
theorem Stretch.register
    (h : Stretch g n d sent p' g') :
    Stretch { g.register r i m with calls := calls } n d sent p'
      { g'.register r i m with calls := calls } := by
  cases h with
  | waits _ hp => exact .waits _ hp
  | ends out row hid hs => exact .ends out row hid hs

theorem join_eq (h : g.joined r i = some n) (resolve : Except Exn Unit) :
    joinOrLead r i resolve now g = .ok (.awaiting n r i) g := by
  rw [joinOrLead, Action.get_bind, h]
  rfl

theorem lead_eq (h : g.joined r i = none) (resolve : Except Exn Unit) :
    joinOrLead r i resolve now g =
      .ok (.awaiting g.dispatches.length r i)
        ((runDispatch g.dispatches.length
          (dispatchTry g.dispatches.length ⟨r, i, .broker, false⟩ now (begin resolve))
          { g with dispatches := g.dispatches ++ [⟨r, i, .broker, false⟩] }).register r i
            g.dispatches.length) := by
  rw [joinOrLead, Action.get_bind, h]
  rfl

/-- The first stretch of a dispatch that a call leads. -/
theorem inv_lead (h : Inv g) (hs : row.state = .reserved)
    (hnone : g.ledger.row? row.runId row.reservationId = none) (resolve : Except Exn Unit)
    (now : Number) (s : CallState) :
    let n := g.dispatches.length
    let d : Dispatch := ⟨row.runId, row.reservationId, .broker, false⟩
    let g₁ : ModelGateway := { g with
      ledger := g.ledger.setRow row.runId row.reservationId row
      calls := g.calls ++ [s]
      dispatches := g.dispatches ++ [d] }
    Inv { (runDispatch n (dispatchTry n d now (begin resolve)) g₁).register row.runId
        row.reservationId n with
      calls := g.calls ++ [.awaiting n row.runId row.reservationId] } := by
  intro n d g₁
  have hled := inv_led h hs hnone
  have hd : (g.led row).dispatches[n]? = some d := List.getElem?_concat_length
  have hlive : g₁.Live d :=
    ⟨row, by simp [g₁, d, InMemoryBudgetLedger.row?_setRow], hs, rfl, rfl⟩
  obtain ⟨p, g', hrun, hstretch⟩ := begin_stretch (n := n) now hlive resolve
  have hsends : Sends n d [] p := .inl ⟨rfl, fun _ => rfl⟩
  have hstretch' : Stretch (g.led row) n d [] p
      { g'.register row.runId row.reservationId n with
        calls := g.calls ++ [.awaiting n row.runId row.reservationId] } := hstretch.register
  rw [runDispatch, hrun]
  exact inv_stretch hled hd rfl hstretch' hsends

theorem inv_brokerSettled (h : Inv g) (hd : g.dispatches[n]? = some d)
    (hp : d.progress = .broker) (answer : Except Exn Resolution) (chat : Except Exn Unit) :
    Inv (runDispatch n (dispatchTry n d now (resolved n d now answer chat)) g) := by
  have ha : d.progress.ended = false := by rw [hp]; rfl
  obtain ⟨sent, p, g', hrun, hstretch, hnot, hsent⟩ :=
    resolved_stretch (n := n) now (live_of_active h.rows hd ha) answer chat
  have hat : d.progress.atBroker = true := by rw [hp]; rfl
  have hsends : Sends n d sent p := by
    rcases hsent with ⟨rfl, -⟩ | rfl
    · exact .inl ⟨rfl, fun _ => hat⟩
    · refine .inr ⟨rfl, hat, ?_⟩
      cases p <;> first | rfl | exact absurd rfl hnot
  rw [runDispatch, hrun]
  exact inv_stretch h hd ha hstretch hsends

theorem inv_transportSettled (h : Inv g) (hd : g.dispatches[n]? = some d)
    (hp : d.progress = .transport) (answer : Except Exn ChatRequestOutcome)
    (usageClock attemptClock : Except Exn Unit) :
    Inv (runDispatch n (dispatchTry n d now (answered n d now answer usageClock attemptClock)) g) := by
  have ha : d.progress.ended = false := by rw [hp]; rfl
  obtain ⟨out, g', hrun, hstretch⟩ := answered_stretch (n := n) now
    (live_of_active h.rows hd ha) answer usageClock attemptClock
  rw [runDispatch, hrun]
  exact inv_stretch h hd ha hstretch (.inl ⟨rfl, fun he => by cases he⟩)

/-- A call that returns, or awaits a dispatch that is there. -/
theorem inv_called (h : Inv g) {s : CallState} (hs : ∀ e, s ≠ .settled (.error e)) :
    Inv { g with calls := g.calls ++ [s] } :=
  inv_calls h (fun _ _ _ _ _ _ hm => mem_append_left _ hm) fun e hm => by
    rcases mem_append.mp hm with hm | hm
    · exact h.promises.returned e hm
    · exact hs e (mem_singleton.mp hm).symm

section Call

variable {o : ModelGatewayOptions} {input : GatewayCallInput}
  {verdict : Except Exn CapabilityVerification} {resolve : Except Exn Unit}

theorem call_early {out : GatewayCallOutcome}
    (h : admitCall o input verdict now g = .ok (.error out) g) :
    call o k input verdict resolve now g = .ok (.settled (.ok out)) g := by
  simp only [call, bind, EStateM.bind, h]
  rfl

theorem call_admitted {g₁ : ModelGateway} {s : CallState}
    (h : admitCall o input verdict now g = .ok (.ok row) g₁)
    (hj : joinOrLead row.runId row.reservationId resolve now g₁ = .ok s g') :
    call o k input verdict resolve now g = .ok s g' := by
  simp only [call, bind, EStateM.bind, h]
  exact Action.tryCatch_ok hj

theorem calls_begin : (runDispatch n (dispatchTry n d now (begin resolve)) g).calls = g.calls := by
  cases resolve <;> rfl

theorem set_last (calls : List CallState) (s t : CallState) :
    (calls ++ [s]).set calls.length t = calls ++ [t] := by
  simp

theorem inv_call (h : Inv g) :
    Inv (runCall g.calls.length (call o g.calls.length input verdict resolve now)
      { g with calls := g.calls ++ [.settled (.ok gatewayError)] }) := by
  let g₀ : ModelGateway := { g with calls := g.calls ++ [.settled (.ok gatewayError)] }
  -- whatever the call is filled with takes the new place
  have hearly : ∀ out, admitCall o input verdict now g₀ = .ok (.error out) g₀ →
      Inv (runCall g.calls.length (call o g.calls.length input verdict resolve now) g₀) := by
    intro out hout
    rw [runCall, call_early hout]
    dsimp only [g₀]
    rw [set_last]
    exact inv_called h (by simp)
  rcases admit_cases o input verdict now g₀ with ⟨out, hout⟩ | ⟨request, hrequest⟩
  · exact hearly out hout
  · rcases reserve_cases (g := g₀) now request h.rows.placed with
      ⟨out, hout⟩ | ⟨row, l, hrow, hs, hl⟩
    · exact hearly out (hrequest _ _ hout)
    · have hadmit := hrequest _ _ hrow
      rcases hl with ⟨rfl, hget⟩ | ⟨rfl, hnone⟩
      · -- a replay of a live row: its dispatch has not ended, and the call joins it
        obtain ⟨n, d, hd, hr, hi⟩ :=
          h.rows.owned _ _ (InMemoryBudgetLedger.live_eq_true.mpr ⟨row, hget, hs⟩)
        obtain ⟨x, hx, hxs⟩ := h.rows.recorded n d hd
        rw [hr, hi] at hx
        obtain rfl : x = row := Option.some.inj (hx.symm.trans hget)
        have hjoin := h.registry.joinable n d hd (hxs.mp hs)
        rw [hr, hi] at hjoin
        have hcall := call_admitted (k := g.calls.length) hadmit
          (join_eq (g := { g₀ with ledger := g₀.ledger }) hjoin resolve)
        rw [runCall, hcall]
        dsimp only
        rw [set_last]
        exact inv_called h (by simp)
      · -- a new row: no dispatch has its ids, and the call leads one
        have hjoin : g.joined row.runId row.reservationId = none := by
          cases hj : g.joined row.runId row.reservationId with
          | none => rfl
          | some n =>
            obtain ⟨d, hd, hr, hi⟩ := h.registry.registered _ _ n hj
            obtain ⟨x, hx, -⟩ := h.rows.recorded n d hd
            rw [hr, hi] at hx
            exact absurd (hx.symm.trans hnone) (by simp)
        have hcall := call_admitted (k := g.calls.length) hadmit (lead_eq
          (g := { g₀ with ledger := g₀.ledger.setRow row.runId row.reservationId row }) hjoin resolve)
        rw [runCall, hcall]
        dsimp only [register]
        rw [calls_begin]
        dsimp only [g₀]
        rw [set_last]
        exact inv_lead h hs hnone resolve now (.settled (.ok gatewayError))

end Call

theorem joined_release (r i : String) :
    (release n d g).joined r i =
      if r = d.runId ∧ i = d.reservationId then none else g.joined r i := by
  unfold release joined
  dsimp only
  cases hrows : g.inFlight.get? d.runId with
  | none =>
    dsimp only
    split
    · next heq => rw [heq.1, hrows]; rfl
    · rfl
  | some rows =>
    dsimp only
    have hdel : ∀ i, (rows.delete d.reservationId).get? i =
        if i = d.reservationId then none else rows.get? i := fun i => Map.get?_delete _ _ _
    by_cases hr : r = d.runId
    · subst hr
      by_cases hsize : (rows.delete d.reservationId).size = 0
      · -- the last entry of the run was deleted
        have hnone : (if i = d.reservationId then none else rows.get? i) = none := by
          rw [← hdel, Map.get?, length_eq_zero_iff.mp hsize]
          rfl
        rw [if_pos hsize, Map.get?_delete, if_pos rfl, hrows, Option.bind_some]
        simp only [true_and, hnone]
        rfl
      · rw [if_neg hsize, Map.get?_set_self, hrows, Option.bind_some, Option.bind_some, hdel]
        simp only [true_and]
    · rw [if_neg (fun heq : r = d.runId ∧ _ => hr heq.1)]
      by_cases hsize : (rows.delete d.reservationId).size = 0
      · rw [if_pos hsize, Map.get?_delete, if_neg hr]
      · rw [if_neg hsize, Map.get?_set_ne hr]

theorem of_release (h : (release n d g).dispatches[m]? = some e) :
    ∃ x, g.dispatches[m]? = some x ∧ e.runId = x.runId ∧ e.reservationId = x.reservationId ∧
      e.progress = x.progress := by
  change (g.dispatches.modify n _)[m]? = some e at h
  rw [List.getElem?_modify] at h
  cases hx : g.dispatches[m]? with
  | none => rw [hx] at h; cases h
  | some x =>
    rw [hx] at h
    refine ⟨x, rfl, ?_⟩
    by_cases hm : n = m
    · simp only [hm, if_true, Option.map_eq_map, Option.map_some, Option.some.injEq] at h
      subst h
      exact ⟨rfl, rfl, rfl⟩
    · simp only [hm, if_false, Option.map_eq_map, Option.map_some, Option.some.injEq] at h
      subst h
      exact ⟨rfl, rfl, rfl⟩

theorem to_release {x : Dispatch} (h : g.dispatches[m]? = some x) :
    ∃ e, (release n d g).dispatches[m]? = some e ∧ e.runId = x.runId ∧
      e.reservationId = x.reservationId := by
  change ∃ e, (g.dispatches.modify n _)[m]? = some e ∧ _
  rw [List.getElem?_modify, h]
  by_cases hm : n = m <;> simp [hm]

/-- Only an ended dispatch is released, so the registry keeps those in flight. -/
theorem inv_released (h : Inv g) (hd : g.dispatches[n]? = some d)
    (hended : d.progress.ended = true) : Inv (release n d g) := by
  refine ⟨⟨h.rows.placed, fun m₁ m₂ e₁ e₂ h₁ h₂ hr hi => ?_, fun m e he => ?_, fun r i hl => ?_⟩,
    ⟨fun m e he ha => ?_, fun r i m hm => ?_⟩,
    ⟨fun m e x he => ?_, fun m e he ha => ?_, h.promises.returned⟩,
    ⟨fun m r i hm => ?_, fun m e he => ?_, fun p r i hm => ?_, fun m e he => ?_⟩⟩
  · obtain ⟨x₁, hx₁, hr₁, hi₁, -⟩ := of_release h₁
    obtain ⟨x₂, hx₂, hr₂, hi₂, -⟩ := of_release h₂
    exact h.rows.distinct _ _ _ _ hx₁ hx₂ (by rw [← hr₁, ← hr₂, hr]) (by rw [← hi₁, ← hi₂, hi])
  · obtain ⟨x, hx, hr, hi, hp⟩ := of_release he
    rw [hr, hi, hp]
    exact h.rows.recorded m x hx
  · obtain ⟨m, x, hx, hr, hi⟩ := h.rows.owned r i hl
    obtain ⟨e, he, hr', hi'⟩ := to_release (n := n) (d := d) hx
    exact ⟨m, e, he, hr'.trans hr, hi'.trans hi⟩
  · obtain ⟨x, hx, hr, hi, hp⟩ := of_release he
    rw [hp] at ha
    rw [joined_release, hr, hi, if_neg]
    · exact h.registry.joinable m x hx ha
    · rintro ⟨hr', hi'⟩
      have heq := h.rows.distinct m n x d hx hd hr' hi'
      subst heq
      rw [hx] at hd
      cases hd
      rw [ha] at hended
      cases hended
  · rw [joined_release] at hm
    split at hm
    · cases hm
    · obtain ⟨x, hx, hr, hi⟩ := h.registry.registered r i m hm
      obtain ⟨e, he, hr', hi'⟩ := to_release (n := n) (d := d) hx
      exact ⟨e, he, hr'.trans hr, hi'.trans hi⟩
  · obtain ⟨y, hy, -, -, hp⟩ := of_release he
    rw [hp]
    exact h.promises.fulfilled m y x hy
  · obtain ⟨y, hy, -, -, hp⟩ := of_release he
    rw [hp] at ha
    exact h.promises.awaited m y hy ha
  · obtain ⟨x, hx, hr, hi⟩ := h.logged.sent m r i hm
    obtain ⟨e, he, hr', hi'⟩ := to_release (n := n) (d := d) hx
    exact ⟨e, he, hr'.trans hr, hi'.trans hi⟩
  · obtain ⟨x, hx, hr, hi, hp⟩ := of_release he
    rw [hr, hi, hp]
    exact h.logged.once m x hx
  · obtain ⟨m, x, hp, hx, hr, hi⟩ := h.logged.own p r i hm
    obtain ⟨e, he, hr', hi'⟩ := to_release (n := n) (d := d) hx
    exact ⟨m, e, hp, he, hr'.trans hr, hi'.trans hi⟩
  · obtain ⟨x, hx, hr, hi, hp⟩ := of_release he
    rw [hr, hi, hp]
    exact h.logged.settled m x hx

theorem inv_resumed (h : Inv g) (hk : g.calls[k]? = some (.awaiting n r i))
    (hd : g.dispatches[n]? = some d) {out : GatewayCallOutcome}
    (hp : d.progress = .settled (.ok out)) :
    Inv (runCall k (resume k r i (.ok out) now) g) := by
  change Inv { g with calls := g.calls.set k (.settled (.ok out)) }
  refine inv_calls h (fun m e x y he ha hm => ?_) fun e hm => ?_
  · refine awaiting_mem_set hm fun hk' => ?_
    obtain rfl : n = m := by
      rw [hk] at hk'
      cases hk'
      rfl
    rw [hd] at he
    cases he
    rw [hp] at ha
    cases ha
  · rcases mem_or_eq_of_mem_set hm with hm | hm
    · exact h.promises.returned e hm
    · cases hm

/-! ## Runs -/

theorem rows_cancelRun (l : InMemoryBudgetLedger) (runId : String) :
    (l.cancelRun runId).2.rows = l.rows := by
  unfold InMemoryBudgetLedger.cancelRun
  split <;> rfl

theorem inv_step (o : ModelGatewayOptions) (h : Inv g) (l : Label) : Inv (step o g l) := by
  obtain ⟨event, now⟩ := l
  cases event with
  | call input verdict resolve => exact inv_call h
  | brokerSettled n answer chat =>
    simp only [step]
    cases hd : g.dispatches[n]? with
    | none => exact h
    | some d =>
      dsimp only
      cases hp : d.progress with
      | broker => exact inv_brokerSettled h hd hp answer chat
      | transport => exact h
      | settled result => exact h
  | transportSettled n answer usageClock attemptClock =>
    simp only [step]
    cases hd : g.dispatches[n]? with
    | none => exact h
    | some d =>
      dsimp only
      cases hp : d.progress with
      | broker => exact h
      | transport => exact inv_transportSettled h hd hp answer usageClock attemptClock
      | settled result => exact h
  | released n =>
    simp only [step]
    cases hd : g.dispatches[n]? with
    | none => exact h
    | some d =>
      dsimp only
      cases hp : d.progress with
      | broker => exact h
      | transport => exact h
      | settled result =>
        dsimp only
        split
        · exact h
        · exact inv_released h hd (by rw [hp]; rfl)
  | resumed k =>
    simp only [step]
    cases hk : g.calls[k]? with
    | none => exact h
    | some c =>
      cases c with
      | settled result => exact h
      | awaiting n r i =>
        dsimp only
        cases hd : g.dispatches[n]? with
        | none => exact h
        | some d =>
          dsimp only [Option.map_some]
          cases hp : d.progress with
          | broker => exact h
          | transport => exact h
          | settled result =>
            cases result with
            | error e => exact absurd hp (h.promises.fulfilled n d e hd)
            | ok out => exact inv_resumed h hk hd hp
  | cancelRun runId => exact inv_ledger h (rows_cancelRun g.ledger runId)

theorem inv_fresh (o : ModelGatewayOptions) : Inv (fresh o) := by
  have hnone : ∀ n : Nat, (fresh o).dispatches[n]? = none := fun n => by simp [fresh]
  refine ⟨⟨fun r i row h => ?_, fun n m d e h => ?_, fun n d h => ?_, fun r i h => ?_⟩,
    ⟨fun n d h => ?_, fun r i n h => ?_⟩, ⟨fun n d e h => ?_, fun n d h => ?_, fun e h => ?_⟩,
    ⟨fun n r i h => ?_, fun n d h => ?_, fun p r i h => ?_, fun n d h => ?_⟩⟩
  all_goals first
    | (rw [hnone] at h; cases h)
    | cases h

theorem inv_run (o : ModelGatewayOptions) (labels : List Label) : Inv (run o labels) :=
  Machine.invariant (I := Inv) (fun _ l h => inv_step o h l) (inv_fresh o) labels

/-! ## Main result -/

/-- The invocations of the transport for a run and a reservation. -/
def transports (g : ModelGateway) (runId reservationId : String) : List Effect :=
  g.log.filter fun e =>
    match e with
    | .transport _ r i => r = runId && i = reservationId
    | _ => false

/-- All invocations for one pair of ids are by one dispatch. -/
theorem transports_le (h : Inv g) (r i : String) : (g.transports r i).length ≤ 1 := by
  by_cases hex : ∃ n, Effect.transport n r i ∈ g.log
  · obtain ⟨n, hn⟩ := hex
    obtain ⟨d, hd, hr, hi⟩ := h.logged.sent n r i hn
    have hall : ∀ e ∈ g.transports r i, e = .transport n r i := by
      intro e he
      obtain ⟨hmem, hp⟩ := mem_filter.mp he
      cases e with
      | settled p x y => cases hp
      | transport m x y =>
        simp only [Bool.and_eq_true, decide_eq_true_eq] at hp
        obtain ⟨rfl, rfl⟩ := hp
        obtain ⟨e, he, hr', hi'⟩ := h.logged.sent m x y hmem
        rw [h.rows.distinct m n e d he hd (hr'.trans hr.symm) (hi'.trans hi.symm)]
    have hcount := h.logged.once n d hd
    rw [hr, hi] at hcount
    have hlen : (g.transports r i).length = (g.transports r i).count (.transport n r i) :=
      (count_eq_length.mpr fun e he => (hall e he).symm).symm
    have hle : (g.transports r i).count (.transport n r i) ≤ g.log.count (.transport n r i) :=
      List.Sublist.count_le _ filter_sublist
    have hone : (if d.progress.atBroker then 0 else 1) ≤ 1 := by split <;> omega
    omega
  · rw [length_eq_zero_iff.mpr]
    · omega
    · refine eq_nil_iff_forall_not_mem.mpr fun e he => ?_
      obtain ⟨hmem, hp⟩ := mem_filter.mp he
      cases e with
      | settled p x y => cases hp
      | transport m x y =>
        simp only [Bool.and_eq_true, decide_eq_true_eq] at hp
        obtain ⟨rfl, rfl⟩ := hp
        exact hex ⟨m, hmem⟩

/-- After every sequence of events of a gateway over a new ledger:
the transport was invoked at most once for each run and reservation; a dispatch that has ended has
settled its own row, once, and the row is committed or refunded; nobody else settled a row; once no call
is waiting, no row is reserved; and no call has rejected. -/
theorem single_dispatch (o : ModelGatewayOptions) (labels : List Label) :
    let g := run o labels
    (∀ r i, (g.transports r i).length ≤ 1) ∧
    (∀ (n : Nat) (d : Dispatch), g.dispatches[n]? = some d → d.progress.ended = true →
      (∃ row, g.ledger.row? d.runId d.reservationId = some row ∧
        (row.state = .committed ∨ row.state = .refunded)) ∧
      g.log.count (.settled (.dispatch n) d.runId d.reservationId) = 1) ∧
    (∀ p r i, Effect.settled p r i ∈ g.log → ∃ (n : Nat) (d : Dispatch), p = .dispatch n ∧
      g.dispatches[n]? = some d ∧ d.runId = r ∧ d.reservationId = i) ∧
    ((∀ n r i, CallState.awaiting n r i ∉ g.calls) →
      ∀ r i row, g.ledger.row? r i = some row → row.state ≠ .reserved) ∧
    ∀ e, CallState.settled (.error e) ∉ g.calls := by
  intro g
  have h : Inv g := inv_run o labels
  refine ⟨transports_le h, fun n d hd he => ⟨?_, ?_⟩, h.logged.own, fun hret r i row hrow hs => ?_,
    h.promises.returned⟩
  · obtain ⟨row, hrow, hs⟩ := h.rows.recorded n d hd
    refine ⟨row, hrow, ?_⟩
    rw [he] at hs
    cases hstate : row.state with
    | reserved => exact absurd (hs.mp hstate) (by simp)
    | committed => exact .inl rfl
    | refunded => exact .inr rfl
  · rw [h.logged.settled n d hd, he]
    rfl
  · -- a reserved row has a dispatch that has not ended, and some call awaits it
    obtain ⟨n, d, hd, hr, hi⟩ :=
      h.rows.owned r i (InMemoryBudgetLedger.live_eq_true.mpr ⟨row, hrow, hs⟩)
    obtain ⟨x, hx, hxs⟩ := h.rows.recorded n d hd
    rw [hr, hi] at hx
    obtain rfl : x = row := Option.some.inj (hx.symm.trans hrow)
    obtain ⟨r', i', hmem⟩ := h.promises.awaited n d hd (hxs.mp hs)
    exact hret n r' i' hmem

def CallState.returned : CallState → Bool
  | .settled _ => true
  | .awaiting .. => false

/-- A gateway for one profile, with a budget of two requests. -/
def oneProfile : ModelGatewayOptions where
  caps := ⟨2, 1000, 0, Nat.two_pos, one_le_thousand, two_le_maxBudgetLimit, thousand_le_maxBudgetLimit, Nat.zero_le _⟩
  perRequestBudget := ⟨10, 0⟩
  profiles := ["p"]

def oneInput : GatewayCallInput where
  token := "t"
  runId := "r"
  modelProfile := "p"
  role := "primary"
  usageId := "r:1"
  reservationId := "a"
  platform := "github"
  installationId := ""
  repoFullName := "o/n"
  payload := true

/-- A call, its replay while the transport works, and the callbacks. -/
def replayed : List Label :=
  [⟨.call oneInput (.ok (.ok ())) (.ok ()), 1⟩, ⟨.brokerSettled 0 (.ok .material) (.ok ()), 2⟩,
    ⟨.call oneInput (.ok (.ok ())) (.ok ()), 3⟩,
    ⟨.transportSettled 0 (.ok (.ok false (some ⟨4, 3, 0⟩))) (.ok ()) (.ok ()), 4⟩,
    ⟨.released 0, 5⟩, ⟨.resumed 0, 6⟩, ⟨.resumed 1, 7⟩]

theorem single_dispatch_replayed :
    ((run oneProfile replayed).transports "r" "a").length = 1 ∧
    ((run oneProfile replayed).transports "r" "a").length ≤ 1 ∧
    ∀ r i row, (run oneProfile replayed).ledger.row? r i = some row → row.state ≠ .reserved := by
  have h := single_dispatch oneProfile replayed
  refine ⟨by decide +kernel, h.1 "r" "a", h.2.2.2.1 ?_⟩
  have hcalls : (run oneProfile replayed).calls.all CallState.returned = true := by decide +kernel
  intro n r i hm
  exact absurd (all_eq_true.mp hcalls _ hm) (by simp [CallState.returned])

end ModelGateway

end PrReviewer.Gateway
