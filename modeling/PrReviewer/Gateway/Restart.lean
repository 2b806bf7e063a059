import PrReviewer.Js.Except
import PrReviewer.Gateway.Ledger
import Mathlib.Data.Option.Basic

/-!
# Restart and isolation of the budget ledger

`Sound` is what every ledger keeps whose clock shows positive safe integers and whose callers reserve
with the run's current generation: each row is stored under its own ids and is one that a seed may
hold, and no row is ahead of its run's generation. From a sound ledger the payload `durableState`
rebuilds the same rows and the same generations (`ofState_durableState`), so all later answers are the
same (`Same`). The one payload that is refused is that of a run whose generation is no safe integer.

What a call answers depends on the rows and the generation of its own run only (`View`), and no call
changes those of another run (`transcript_filter`).
-/

open Js List

namespace PrReviewer.Gateway

namespace InMemoryBudgetLedger

variable {l m : InMemoryBudgetLedger}

/-! ## Accepted rows -/

/-- What `validateBudgetReservationRow` checks of the fields that stay when the row is settled. -/
structure IdentityOk (row : BudgetReservationRow) : Prop where
  reservationId : (identifier row.reservationId 128).isSome = true
  runId : (identifier row.runId 128).isSome = true
  generation : row.generation ≤ maxSafe ∧ 1 ≤ row.generation
  modelProfile : (identifier row.modelProfile 64).isSome = true
  tokens : row.estimatedTokens ≤ maxSafe
  cost : row.estimatedCostMicros ≤ maxSafe
  reservedAtMs : isSafeTime row.reservedAtMs = true

/-- What it checks of the others. -/
structure StateOk (row : BudgetReservationRow) : Prop where
  actuals : row.actualRequestCount ≤ maxSafe ∧ row.actualTokens ≤ maxSafe ∧
    row.actualCostMicros ≤ maxSafe
  counted : row.state = .committed → 1 ≤ row.actualRequestCount
  flagged : row.overran = true → row.state = .committed
  settledAtMs : isSafeTime row.settledAtMs = true
  live : row.state = .reserved → (row.settledAtMs == 0) = true
  late : row.state ≠ .reserved → ¬row.settledAtMs ≤ 0

variable {row : BudgetReservationRow} {a : BudgetUsageTotals} {c : Char} {s r : String}
  {x now : Number} {actual : BudgetActualUsage} {n g : Nat} {caps : GatewayBudgetLimits}
  {state : BudgetDurableState}

theorem isValid_iff :
    row.isValid = true ↔ IdentityOk row ∧ StateOk row := by
  have hlive : (row.settledAtMs != 0) = !(row.settledAtMs == 0) := rfl
  constructor
  · intro h
    simp only [BudgetReservationRow.isValid, isSafeNonNegativeInteger, hlive, Bool.and_eq_true,
      Bool.not_eq_true', Bool.and_eq_false_iff, decide_eq_true_eq, decide_eq_false_iff_not] at h
    obtain ⟨⟨⟨⟨⟨⟨⟨⟨⟨⟨⟨⟨⟨⟨hid, hrun⟩, hgen⟩, hprof⟩, htok⟩, hcost⟩, hcount⟩, hone⟩, hat⟩, hac⟩, hflag⟩,
      hres⟩, hset⟩, hlive⟩, hlate⟩ := h
    refine ⟨⟨hid, hrun, hgen, hprof, htok, hcost, hres⟩, ⟨hcount, hat, hac⟩, fun hs => ?_,
      fun ho => ?_, hset, fun hs => ?_, fun hs => ?_⟩
    · have := hone.resolve_left (not_not_intro hs)
      omega
    · by_contra hs
      rcases hflag with h | h
      · exact h hs
      · rw [ho] at h
        cases h
    · have := hlive.resolve_left (not_not_intro hs)
      simpa using this
    · exact hlate.resolve_left (not_not_intro hs)
  · rintro ⟨⟨hid, hrun, hgen, hprof, htok, hcost, hres⟩, hact, hone, hflag, hset, hl, hlate⟩
    simp only [BudgetReservationRow.isValid, isSafeNonNegativeInteger, hlive, Bool.and_eq_true,
      Bool.not_eq_true', Bool.and_eq_false_iff, decide_eq_true_eq, decide_eq_false_iff_not]
    refine ⟨⟨⟨⟨⟨⟨⟨⟨⟨⟨⟨⟨⟨⟨hid, hrun⟩, hgen⟩, hprof⟩, htok⟩, hcost⟩, hact.1⟩, ?_⟩, hact.2.1⟩, hact.2.2⟩,
      ?_⟩, hres⟩, hset⟩, ?_⟩, ?_⟩
    · by_cases hs : row.state = .committed
      · exact .inr (by have := hone hs; omega)
      · exact .inl hs
    · cases ho : row.overran
      · exact .inr rfl
      · exact .inl (not_not_intro (hflag ho))
    · by_cases hs : row.state = .reserved
      · exact .inr (by simp [hl hs])
      · exact .inl hs
    · by_cases hs : row.state = .reserved
      · exact .inl (not_not_intro hs)
      · exact .inr (hlate hs)

theorem isValid_generation (h : row.isValid = true) :
    row.generation ≤ maxSafe ∧ 1 ≤ row.generation := (isValid_iff.mp h).1.generation

/-! ## Run ids -/

/-- A printable character of ASCII other than the space. -/
def IsPlain (c : Char) : Prop := 0x21 ≤ c.toNat ∧ c.toNat ≤ 0x7E

theorem isPlain_between {a b : Char} (ha : 0x21 ≤ a.toNat) (hb : b.toNat ≤ 0x7E)
    (h : a ≤ c ∧ c ≤ b) : IsPlain c := by
  have h1 : a.toNat ≤ c.toNat := h.1
  have h2 : c.toNat ≤ b.toNat := h.2
  unfold IsPlain
  omega

theorem isPlain_of_runIdRe (h : runIdRe s = true) :
    s.toList ≠ [] ∧ s.toList.length ≤ 128 ∧ ∀ c ∈ s.toList, IsPlain c := by
  have hplain : ∀ c : Char, (isTokenChar c || c = ':') = true → IsPlain c := by
    intro c hc
    simp only [isTokenChar, isDigit, Bool.or_eq_true, Bool.and_eq_true, decide_eq_true_eq] at hc
    rcases hc with (((((h | h) | h) | rfl) | rfl) | rfl) | rfl
    · exact isPlain_between (by decide) (by decide) h
    · exact isPlain_between (by decide) (by decide) h
    · exact isPlain_between (by decide) (by decide) h
    all_goals exact ⟨by decide, by decide⟩
  have hfirst : ∀ c : Char, isAlphanumeric c = true → (isTokenChar c || c = ':') = true := by
    intro c hc
    unfold isAlphanumeric at hc
    simp [isTokenChar, hc]
  unfold runIdRe at h
  split at h
  · cases h
  · next c cs hs =>
    simp only [Bool.and_eq_true, decide_eq_true_eq, all_eq_true] at h
    rw [hs]
    refine ⟨by simp, by simp only [length_cons]; omega, fun x hx => ?_⟩
    rcases mem_cons.mp hx with rfl | hx
    · exact hplain x (hfirst x h.1.1)
    · exact hplain x (by simpa using h.2 x hx)

theorem IsPlain.units (h : IsPlain c) : (charUnits c).length = 1 := by
  unfold IsPlain at h
  rw [charUnits, if_pos (by omega)]
  rfl

theorem IsPlain.not_isSpace (h : IsPlain c) : isSpace c = false := by
  unfold IsPlain at h
  simp only [isSpace, contains_eq_mem, mem_cons, not_mem_nil, or_false,
    Bool.or_eq_false_iff, Bool.and_eq_false_iff, decide_eq_false_iff_not]
  omega

/-- A run id passes the checks of `identifier`. -/
theorem identifier_of_runIdRe (h : runIdRe s = true) :
    identifier s 128 = some s := by
  obtain ⟨hne, hlen, hplain⟩ := isPlain_of_runIdRe h
  have hunits : strLength s = s.toList.length := by
    have hsum : ∀ cs : List Char, (∀ c ∈ cs, IsPlain c) →
        (cs.flatMap charUnits).length = cs.length := by
      intro cs
      induction cs with
      | nil => intro _; rfl
      | cons c cs ih =>
        intro hcs
        rw [flatMap_cons, length_append, length_cons,
          (hcs c mem_cons_self).units, ih fun x hx => hcs x (mem_cons_of_mem _ hx)]
        omega
    exact hsum _ hplain
  have hdrop : ∀ cs : List Char, (∀ c ∈ cs, IsPlain c) → cs.dropWhile isSpace = cs := by
    intro cs hcs
    cases cs with
    | nil => rfl
    | cons c cs => simp [(hcs c mem_cons_self).not_isSpace]
  have htrim : trim s = s := by
    unfold trim
    rw [hdrop _ hplain, hdrop _ (fun c hc => hplain c (mem_reverse.mp hc)),
      reverse_reverse, String.ofList_toList]
  have hcontrol : hasControlChar s = false := by
    simp only [hasControlChar, any_eq_false, Bool.or_eq_true, decide_eq_true_eq, beq_iff_eq]
    intro c hc
    have := hplain c hc
    unfold IsPlain at this
    omega
  have hpos : 0 < s.toList.length := length_pos_of_ne_nil hne
  unfold identifier
  rw [if_neg (by omega), if_neg (by simp [htrim]), if_neg (by simp [hcontrol])]

/-! ## Sound ledgers -/

/-- What a ledger keeps whose callers pass the current generation and whose clock shows positive safe
integers. -/
structure Sound (l : InMemoryBudgetLedger) : Prop where
  placed : ∀ r i row, l.row? r i = some row → row.runId = r ∧ row.reservationId = i
  nonempty : ∀ r rows, l.rows.get? r = some rows → rows.entries ≠ []
  valid : ∀ r i row, l.row? r i = some row → row.isValid = true
  behind : ∀ r i row, l.row? r i = some row → row.generation ≤ l.generationFor r
  named : ∀ r g, l.generations.get? r = some g → (identifier r 128).isSome = true ∧ 1 ≤ g

theorem sound_fresh (caps : GatewayBudgetLimits) : (fresh caps).Sound where
  placed := by intro r i row h; cases h
  nonempty := by intro r rows h; cases h
  valid := by intro r i row h; cases h
  behind := by intro r i row h; cases h
  named := by intro r g h; cases h

/-- Setting a valid row under its own ids, not ahead of the run's generation. -/
theorem Sound.setRow (h : l.Sound) {row : BudgetReservationRow} {runId reservationId : String}
    (hrun : row.runId = runId) (hid : row.reservationId = reservationId)
    (hvalid : row.isValid = true) (hgen : row.generation ≤ l.generationFor runId) :
    (l.setRow runId reservationId row).Sound where
  placed := by
    intro r i x hx
    rw [row?_setRow] at hx
    split at hx
    · next heq => cases hx; exact ⟨hrun.trans heq.1.symm, hid.trans heq.2.symm⟩
    · exact h.placed r i x hx
  nonempty := by
    intro r rows hr
    unfold InMemoryBudgetLedger.setRow at hr
    rw [Map.get?_set] at hr
    split at hr
    · cases hr
      intro hnil
      have hself : ((l.rowsForRun runId).set reservationId row).get? reservationId = some row :=
        Map.get?_set_self _ _ _
      rw [Map.get?, hnil] at hself
      cases hself
    · exact h.nonempty r rows hr
  valid := by
    intro r i x hx
    rw [row?_setRow] at hx
    split at hx
    · cases hx; exact hvalid
    · exact h.valid r i x hx
  behind := by
    intro r i x hx
    rw [row?_setRow] at hx
    rw [generationFor_setRow]
    split at hx
    · next heq => cases hx; rw [heq.1]; exact hgen
    · exact h.behind r i x hx
  named := h.named

/-- Raising the generation of a run. -/
theorem Sound.raise (h : l.Sound) {runId : String} {g : Nat}
    (hid : (identifier runId 128).isSome = true) (hg : 1 ≤ g)
    (hle : ∀ i row, l.row? runId i = some row → row.generation ≤ g) :
    Sound { l with generations := l.generations.set runId g } where
  placed := h.placed
  nonempty := h.nonempty
  valid := h.valid
  behind := by
    intro r i row hrow
    unfold generationFor
    rw [Map.get?_set]
    split
    · next heq => subst heq; exact hle i row hrow
    · exact h.behind r i row hrow
  named := by
    intro r x hx
    change (l.generations.set runId g).get? r = some x at hx
    rw [Map.get?_set] at hx
    split at hx
    · next heq => cases hx; subst heq; exact ⟨hid, hg⟩
    · exact h.named r x hx

/-- What the callers and the clock do: a reservation carries the run's current generation, and the
clock shows a positive safe integer. -/
def regular (l : InMemoryBudgetLedger) (c : Call) : Bool :=
  c.now.isSafeInteger && decide ((0 : Number) < c.now) &&
    match c.op with
    | .reserve input => input.generation.toNat = l.generationFor input.runId
    | _ => true

theorem isSafeTime_zero : isSafeTime 0 = true := by decide +kernel

theorem zero_beq_zero : ((0 : Number) == 0) = true := by decide +kernel

theorem isSafeTime_of (h : x.isSafeInteger = true) (hx : (0 : Number) < x) :
    isSafeTime x = true := by
  rw [isSafeTime, h, Bool.true_and, decide_eq_true_eq]
  exact Number.le_of_lt hx

theorem BudgetActualUsage.check_le
    (h : actual.check = some a) : a.requestCount ≤ maxSafe ∧ 1 ≤ a.requestCount ∧
      a.tokens ≤ maxSafe ∧ a.costMicros ≤ maxSafe := by
  simp only [BudgetActualUsage.check, bind, Option.bind_eq_some_iff, Option.filter_eq_some_iff,
    decide_eq_true_eq, pure, Option.some.injEq] at h
  obtain ⟨n, ⟨hn, hpos⟩, t, ht, c, hc, rfl⟩ := h
  exact ⟨Number.safeNat?_le hn, hpos, Number.safeNat?_le ht, Number.safeNat?_le hc⟩

theorem isValid_row {input : BudgetReservationInput} {r : CheckedReservation}
    (h : input.check = .ok r) (hnow : isSafeTime now = true) : (r.row now).isValid = true := by
  obtain ⟨-, -, hid, hrun, hprof, hgen, hpos, htok, hcost⟩ := BudgetReservationInput.check_ok h
  rw [isValid_iff]
  refine ⟨⟨by simp [CheckedReservation.row, hid], by simp [CheckedReservation.row, hrun],
    ⟨Number.safeNat?_le hgen, hpos⟩, by simp [CheckedReservation.row, hprof],
    Number.safeNat?_le htok, Number.safeNat?_le hcost, hnow⟩, ?_⟩
  exact ⟨by simp [CheckedReservation.row], by simp [CheckedReservation.row],
    by simp [CheckedReservation.row], isSafeTime_zero, fun _ => zero_beq_zero,
    by simp [CheckedReservation.row]⟩

theorem isValid_committed
    (h : row.isValid = true) (ha : actual.check = some a)
    (hnow : now.isSafeInteger = true) (hpos : (0 : Number) < now) :
    (row.committed a now).isValid = true := by
  rw [isValid_iff] at h ⊢
  obtain ⟨hcount, hone, htok, hcost⟩ := BudgetActualUsage.check_le ha
  refine ⟨⟨h.1.reservationId, h.1.runId, h.1.generation, h.1.modelProfile, h.1.tokens, h.1.cost,
    h.1.reservedAtMs⟩, ?_⟩
  exact ⟨⟨hcount, htok, hcost⟩, fun _ => hone, fun _ => rfl, isSafeTime_of hnow hpos,
    by simp [BudgetReservationRow.committed], fun _ => Number.not_le_of_lt hpos⟩

theorem isValid_refunded (h : row.isValid = true)
    (hs : row.state = .reserved) (hnow : now.isSafeInteger = true) (hpos : (0 : Number) < now) :
    (row.refunded now).isValid = true := by
  rw [isValid_iff] at h ⊢
  refine ⟨⟨h.1.reservationId, h.1.runId, h.1.generation, h.1.modelProfile, h.1.tokens, h.1.cost,
    h.1.reservedAtMs⟩, ?_⟩
  refine ⟨h.2.actuals, by simp [BudgetReservationRow.refunded], fun hover => ?_,
    isSafeTime_of hnow hpos, by simp [BudgetReservationRow.refunded],
    fun _ => Number.not_le_of_lt hpos⟩
  have := h.2.flagged hover
  rw [hs] at this
  cases this

/-! ## Calls keep a ledger sound -/

theorem regular_iff {c : Call} : l.regular c = true ↔
    c.now.isSafeInteger = true ∧ (0 : Number) < c.now ∧
      ∀ input, c.op = .reserve input → input.generation.toNat = l.generationFor input.runId := by
  obtain ⟨op, now⟩ := c
  cases op <;> simp [regular, and_assoc]

/-- The number of a checked generation. -/
theorem toNat_of_safeNat? (h : x.safeNat? = some n) : x.toNat = n := by
  unfold Number.safeNat? at h
  split at h
  · exact Option.some.inj h
  · cases h

theorem le_plus_one (hg : g ≤ maxSafe) (hn : g ≤ n) : g ≤ plus n 1 := by
  unfold maxSafe at hg
  by_cases h : n + 1 < 2 ^ 53
  · rw [plus_of_lt h]
    omega
  · have := le_nearest (n := n + 1) (by omega)
    unfold plus
    omega

theorem sound_next {c : Call} (h : l.Sound) (hc : l.regular c = true) : (l.next c).Sound := by
  obtain ⟨hnow, hpos, hgen⟩ := regular_iff.mp hc
  rcases l.next_cases c with heq | ⟨input, q, hop, hq, -, -, -, heq⟩ |
    ⟨runId, i, actual, row, a, -, hrow, -, ha, heq⟩ | ⟨runId, i, row, -, hrow, hs, heq⟩ |
    ⟨runId, -, hrun, heq⟩ <;> rw [heq]
  · exact h
  · -- the new row carries the current generation
    obtain ⟨-, hrunId, -, -, -, hnat, -⟩ := BudgetReservationInput.check_ok hq
    refine h.setRow rfl rfl (isValid_row hq (isSafeTime_of hnow hpos)) ?_
    rw [hrunId, ← hgen input hop, toNat_of_safeNat? hnat]
    exact Nat.le_refl _
  · obtain ⟨hr, hi⟩ := h.placed _ _ _ hrow
    exact h.setRow hr hi (isValid_committed (h.valid _ _ _ hrow) ha hnow hpos)
      (h.behind runId i row hrow)
  · obtain ⟨hr, hi⟩ := h.placed _ _ _ hrow
    exact h.setRow hr hi (isValid_refunded (h.valid _ _ _ hrow) hs hnow hpos)
      (h.behind runId i row hrow)
  · have hone : 1 ≤ l.generationFor runId := by
      unfold generationFor
      cases hg : l.generations.get? runId with
      | none => exact Nat.le_refl _
      | some g => exact (h.named _ _ hg).2
    refine h.raise (by rw [identifier_of_runIdRe hrun]; rfl) (le_plus_one (by decide) hone) ?_
    intro i row hrow
    exact le_plus_one (isValid_generation (h.valid _ _ _ hrow)).1 (h.behind _ _ _ hrow)

/-! ## Seeds -/

theorem has_eq_false {κ ν : Type} [DecidableEq κ] {m : Map κ ν} {k : κ} (h : ¬m.has k = true) :
    m.get? k = none := by
  rw [Bool.not_eq_true] at h
  exact Map.has_eq_false_iff.mp h

theorem seedGeneration_ok {row : BudgetRunGenerationRow} (h : l.seedGeneration row = .ok m) :
    row.isValid = true ∧ l.generations.get? row.runId = none ∧
      m = { l with generations := l.generations.set row.runId row.generation } := by
  unfold seedGeneration validateBudgetRunGeneration at h
  split at h
  · cases h
  · next checked hv =>
    split at hv
    · next hvalid =>
      cases hv
      split at h
      · cases h
      · next hhas => cases h; exact ⟨hvalid, has_eq_false hhas, rfl⟩
    · cases hv

theorem seedRow_ok (h : l.seedRow row = .ok m) :
    row.isValid = true ∧ l.row? row.runId row.reservationId = none ∧
      m = { l.setRow row.runId row.reservationId row with
            generations := l.raised row.runId row.generation } := by
  unfold seedRow validateBudgetReservationRow at h
  split at h
  · cases h
  · next checked hv =>
    split at hv
    · next hvalid =>
      cases hv
      split at h
      · cases h
      · next hhas => cases h; exact ⟨hvalid, by rw [row?_eq]; exact has_eq_false hhas, rfl⟩
    · cases hv

theorem isValid_generationRow {row : BudgetRunGenerationRow} :
    row.isValid = true ↔
      (identifier row.runId 128).isSome = true ∧ row.generation ≤ maxSafe ∧ 1 ≤ row.generation := by
  simp [BudgetRunGenerationRow.isValid, isSafeNonNegativeInteger]

theorem sound_seedGeneration (hrows : l.rows = .empty) (h : l.Sound)
    {row : BudgetRunGenerationRow} (hm : l.seedGeneration row = .ok m) :
    m.rows = .empty ∧ m.Sound := by
  obtain ⟨hvalid, -, rfl⟩ := seedGeneration_ok hm
  obtain ⟨hid, -, hpos⟩ := isValid_generationRow.mp hvalid
  refine ⟨hrows, h.raise hid hpos fun i x hx => ?_⟩
  rw [row?, hrows] at hx
  cases hx

theorem sound_seedRow (h : l.Sound) {row : BudgetReservationRow} (hm : l.seedRow row = .ok m) :
    m.Sound := by
  obtain ⟨hvalid, -, rfl⟩ := seedRow_ok hm
  obtain ⟨hid, -⟩ := isValid_iff.mp hvalid
  -- the generations are raised first, so that the row is not ahead of its run
  have hraise : Sound { l with generations := l.raised row.runId row.generation } ∧
      row.generation ≤
        ({ l with generations := l.raised row.runId row.generation } :
          InMemoryBudgetLedger).generationFor row.runId := by
    have hset : (∀ g, l.generations.get? row.runId = some g → g < row.generation) →
        Sound { l with generations := l.generations.set row.runId row.generation } := by
      intro hlt
      refine h.raise hid.runId hid.generation.2 fun i x hx => ?_
      have hx := h.behind _ _ _ hx
      unfold generationFor at hx
      cases hg : l.generations.get? row.runId with
      | none =>
        rw [hg] at hx
        exact Nat.le_trans hx hid.generation.2
      | some g =>
        rw [hg] at hx
        exact Nat.le_trans hx (Nat.le_of_lt (hlt g hg))
    unfold raised generationFor
    cases hg : l.generations.get? row.runId with
    | none => exact ⟨hset (by simp [hg]), by simp⟩
    | some g =>
      dsimp only
      split
      · next hlt => exact ⟨hset (by simpa [hg] using hlt), by simp⟩
      · next hlt => exact ⟨h, by simp only [hg, Option.getD_some]; omega⟩
  exact hraise.1.setRow rfl rfl hvalid hraise.2

theorem sound_ofState
    (h : ofState caps state = .ok l) : l.Sound := by
  unfold ofState at h
  cases hg : state.generations.foldlM seedGeneration (fresh caps) with
  | error e => rw [hg] at h; cases h
  | ok x =>
    rw [hg] at h
    have hx := Except.foldlM_invariant (I := fun l => l.rows = .empty ∧ l.Sound)
      (fun s a s' hs hs' => sound_seedGeneration hs.1 hs.2 hs') ⟨rfl, sound_fresh caps⟩ hg
    exact Except.foldlM_invariant (I := Sound) (fun s a s' hs hs' => sound_seedRow hs hs') hx.2 h

/-! ## Rebuilding -/

theorem seedGenerations_ok (es done : List (String × Nat))
    (hm : m.generations.entries = done) (hnodup : ((done ++ es).map Prod.fst).Nodup)
    (hvalid : ∀ e ∈ es, BudgetRunGenerationRow.isValid ⟨e.1, e.2⟩ = true) :
    ∃ m', (es.map fun e => (⟨e.1, e.2⟩ : BudgetRunGenerationRow)).foldlM seedGeneration m = .ok m' ∧
      m'.caps = m.caps ∧ m'.rows = m.rows ∧ m'.generations.entries = done ++ es := by
  induction es generalizing m done with
  | nil => exact ⟨m, rfl, rfl, rfl, by simpa using hm⟩
  | cons e es ih =>
    have hnew := Map.not_mem_of_nodup hnodup
    have hnone : m.generations.has e.1 = false := Map.has_eq_false_iff.mpr (Map.get?_of_fresh hm hnew)
    have hstep : seedGeneration m ⟨e.1, e.2⟩ =
        .ok { m with generations := m.generations.set e.1 e.2 } := by
      simp [seedGeneration, validateBudgetRunGeneration, hvalid e mem_cons_self, hnone]
    obtain ⟨m', hfold, hcaps, hrows, hgens⟩ :=
      ih (m := { m with generations := m.generations.set e.1 e.2 }) (done ++ [e])
        (Map.entries_set_of_fresh hm hnew e.2) (by simpa using hnodup) (fun x hx => hvalid x (mem_cons_of_mem _ hx))
    refine ⟨m', ?_, hcaps, hrows, by simpa using hgens⟩
    rw [map_cons, foldlM_cons, hstep]
    exact hfold

/-- A row that is not ahead of its run leaves the generation of every run as it is. -/
theorem generationFor_raised {runId : String} (hg : 1 ≤ g)
    (hle : g ≤ m.generationFor runId) (r : String) :
    (((m.raised runId g).get? r).getD 1) = m.generationFor r := by
  unfold raised
  cases hx : m.generations.get? runId with
  | none =>
    dsimp only
    rw [generationFor, hx] at hle
    rw [Map.get?_set, generationFor]
    split
    · next heq =>
      subst heq
      rw [hx]
      exact Nat.le_antisymm hle hg
    · rfl
  | some x =>
    dsimp only
    rw [generationFor, hx] at hle
    rw [if_neg (by simpa using hle)]
    rfl

/-- What a seed may hold at the place `i` of the run `r`, in a ledger with the generations of `m`. -/
def Fits (m : InMemoryBudgetLedger) (r : String) (e : String × BudgetReservationRow) : Prop :=
  e.2.runId = r ∧ e.2.reservationId = e.1 ∧ e.2.isValid = true ∧ e.2.generation ≤ m.generationFor r

/-- Reading the rest `es` of one run's rows: they go behind the rows `d` of that run. -/
theorem seedRows_ok {done : List (String × Map String BudgetReservationRow)}
    {d : List (String × BudgetReservationRow)} (es : List (String × BudgetReservationRow))
    (hd : (m.rowsForRun r).entries = d)
    (hlast : ∀ g, (m.rows.set r g).entries = done ++ [(r, g)])
    (hnew : r ∉ done.map Prod.fst)
    (hnodup : ((d ++ es).map Prod.fst).Nodup) (hes : ∀ e ∈ es, Fits m r e) :
    ∃ m', (es.map Prod.snd).foldlM seedRow m = .ok m' ∧ m'.caps = m.caps ∧
      (∀ x, m'.generationFor x = m.generationFor x) ∧
      (es ≠ [] → ∃ g, g.entries = d ++ es ∧ m'.rows.entries = done ++ [(r, g)]) := by
  induction es generalizing m d with
  | nil => exact ⟨m, rfl, rfl, fun _ => rfl, fun h => absurd rfl h⟩
  | cons e es ih =>
    obtain ⟨hrun, hid, hvalid, hgen⟩ := hes e mem_cons_self
    have hfresh := Map.not_mem_of_nodup hnodup
    have hnone : (m.rowsForRun r).has e.1 = false :=
      Map.has_eq_false_iff.mpr (Map.get?_of_fresh hd hfresh)
    let m₁ : InMemoryBudgetLedger :=
      { m.setRow r e.1 e.2 with generations := m.raised r e.2.generation }
    have hstep : m.seedRow e.2 = .ok m₁ := by
      unfold seedRow validateBudgetReservationRow
      rw [if_pos hvalid]
      dsimp only
      rw [hrun, hid, hnone, if_neg Bool.false_ne_true]
    have hgens : ∀ x, m₁.generationFor x = m.generationFor x := by
      have hpos := (isValid_generation hvalid).2
      exact fun x => generationFor_raised hpos hgen x
    have hgroup : (m₁.rowsForRun r).entries = d ++ [e] := by
      change ((m.setRow r e.1 e.2).rowsForRun r).entries = _
      rw [rowsForRun_setRow, if_pos rfl]
      exact Map.entries_set_of_fresh hd hfresh e.2
    have hlast₁ : ∀ g, (m₁.rows.set r g).entries = done ++ [(r, g)] := by
      intro g
      change Map.setEntries r g (m.rows.set r _).entries = _
      rw [hlast, Map.setEntries_last hnew]
    obtain ⟨m', hfold, hcaps, hgens', hrows⟩ :=
      ih (m := m₁) hgroup hlast₁ (by simpa using hnodup) fun x hx => by
        obtain ⟨h1, h2, h3, h4⟩ := hes x (mem_cons_of_mem _ hx)
        exact ⟨h1, h2, h3, by rw [hgens]; exact h4⟩
    refine ⟨m', ?_, hcaps, fun x => (hgens' x).trans (hgens x), fun _ => ?_⟩
    · rw [map_cons, foldlM_cons, hstep]
      exact hfold
    · cases es with
      | nil =>
        cases hfold
        have hself : m₁.rowsForRun r = (m.rowsForRun r).set e.1 e.2 := by
          change (m.setRow r e.1 e.2).rowsForRun r = _
          rw [rowsForRun_setRow, if_pos rfl]
        exact ⟨m₁.rowsForRun r, hgroup, by rw [hself]; exact hlast _⟩
      | cons e' es' =>
        obtain ⟨g, hg, hentries⟩ := hrows (by simp)
        exact ⟨g, by simpa using hg, hentries⟩

/-- Reading the rest `es` of the groups: they go behind the groups `done`. -/
theorem seedGroups_ok (es done : List (String × Map String BudgetReservationRow))
    (hm : m.rows.entries = done) (hnodup : ((done ++ es).map Prod.fst).Nodup)
    (hnonempty : ∀ g ∈ es, g.2.entries ≠ []) (hes : ∀ g ∈ es, ∀ e ∈ g.2.entries, Fits m g.1 e) :
    ∃ m', (es.flatMap fun g => g.2.values).foldlM seedRow m = .ok m' ∧ m'.caps = m.caps ∧
      (∀ x, m'.generationFor x = m.generationFor x) ∧ m'.rows.entries = done ++ es := by
  induction es generalizing m done with
  | nil => exact ⟨m, rfl, rfl, fun _ => rfl, by simpa using hm⟩
  | cons g es ih =>
    have hnew := Map.not_mem_of_nodup hnodup
    have hlast : ∀ x, (m.rows.set g.1 x).entries = done ++ [(g.1, x)] :=
      Map.entries_set_of_fresh hm hnew
    have hempty : (m.rowsForRun g.1).entries = [] := by
      rw [rowsForRun, Map.get?_of_fresh hm hnew]
      rfl
    obtain ⟨m₁, hfold₁, hcaps₁, hgens₁, hrows₁⟩ :=
      seedRows_ok g.2.entries hempty hlast hnew (by simpa using g.2.nodup)
        (hes g mem_cons_self)
    obtain ⟨x, hx, hentries⟩ := hrows₁ (hnonempty g mem_cons_self)
    obtain rfl : x = g.2 := Map.ext_entries (by simpa using hx)
    obtain ⟨m', hfold, hcaps, hgens, hrows⟩ :=
      ih (m := m₁) (done ++ [g]) hentries (by simpa using hnodup)
        (fun y hy => hnonempty y (mem_cons_of_mem _ hy)) fun y hy e he => by
          obtain ⟨h1, h2, h3, h4⟩ := hes y (mem_cons_of_mem _ hy) e he
          exact ⟨h1, h2, h3, by rw [hgens₁]; exact h4⟩
    refine ⟨m', ?_, hcaps.trans hcaps₁, fun x => (hgens x).trans (hgens₁ x), by simpa using hrows⟩
    rw [flatMap_cons, foldlM_append]
    change (g.2.entries.map Prod.snd).foldlM seedRow m >>= _ = _
    rw [hfold₁]
    exact hfold

theorem fits_of_sound (h : l.Sound) (hm : ∀ x, m.generationFor x = l.generationFor x)
    {g : String × Map String BudgetReservationRow} (hg : g ∈ l.rows.entries)
    {e : String × BudgetReservationRow} (he : e ∈ g.2.entries) : Fits m g.1 e := by
  have hrow : l.row? g.1 e.1 = some e.2 := by
    rw [row?, Map.mem_entries_iff.mp hg, Option.bind_some, Map.mem_entries_iff.mp he]
  obtain ⟨hrun, hid⟩ := h.placed _ _ _ hrow
  exact ⟨hrun, hid, h.valid _ _ _ hrow, by rw [hm]; exact h.behind _ _ _ hrow⟩

/-- The payload of a sound ledger whose generations are safe integers rebuilds its rows and its
generations. -/
theorem ofState_durableState (h : l.Sound) (hsafe : ∀ r, l.generationFor r ≤ maxSafe) :
    ∃ m, ofState l.caps l.durableState = .ok m ∧ m.caps = l.caps ∧ m.rows = l.rows ∧
      ∀ r, m.generationFor r = l.generationFor r := by
  have hgen : ∀ e ∈ l.generations.entries,
      BudgetRunGenerationRow.isValid ⟨e.1, e.2⟩ = true := by
    intro e he
    have hget := Map.mem_entries_iff.mp he
    obtain ⟨hid, hpos⟩ := h.named _ _ hget
    have hle := hsafe e.1
    rw [generationFor, hget] at hle
    exact isValid_generationRow.mpr ⟨hid, hle, hpos⟩
  obtain ⟨m₁, hfold₁, hcaps₁, hrows₁, hgens₁⟩ :=
    seedGenerations_ok (m := fresh l.caps) _ [] rfl (by simpa using l.generations.nodup) hgen
  have hsame₁ : m₁.generations = l.generations := Map.ext_entries (by simpa using hgens₁)
  have hsame : ∀ x, m₁.generationFor x = l.generationFor x := by
    intro x
    rw [generationFor, hsame₁]
    rfl
  obtain ⟨m, hfold, hcaps, hgens, hrows⟩ :=
    seedGroups_ok (m := m₁) l.rows.entries [] (by rw [hrows₁]; rfl)
      (by simpa using l.rows.nodup)
      (fun g hg => h.nonempty g.1 g.2 (Map.mem_entries_iff.mp hg))
      (fun g hg e he => fits_of_sound h hsame hg he)
  refine ⟨m, ?_, hcaps.trans hcaps₁, Map.ext_entries (by simpa using hrows),
    fun r => (hgens r).trans (hsame r)⟩
  unfold ofState durableState generationRows allRows Map.values
  dsimp only
  rw [hfold₁, flatMap_map]
  exact hfold

theorem generations_of_foldlM {gs : List BudgetRunGenerationRow}
    (h : gs.foldlM seedGeneration l = .ok m) : ∀ g ∈ gs, g.isValid = true := by
  induction gs generalizing l with
  | nil => intro g hg; cases hg
  | cons x gs ih =>
    rw [foldlM_cons] at h
    cases hx : seedGeneration l x with
    | error e => rw [hx] at h; cases h
    | ok l₁ =>
      rw [hx] at h
      intro g hg
      rcases mem_cons.mp hg with rfl | hg
      · exact (seedGeneration_ok hx).1
      · exact ih h g hg

/-- An accepted payload has no generation past the safe integers. -/
theorem safe_of_ofState (h : ofState caps l.durableState = .ok m)
    (r : String) : l.generationFor r ≤ maxSafe := by
  unfold generationFor
  cases hr : l.generations.get? r with
  | none => decide
  | some g =>
    unfold ofState at h
    cases hg : l.durableState.generations.foldlM seedGeneration (fresh caps) with
    | error e => rw [hg] at h; cases h
    | ok x =>
      have hvalid := generations_of_foldlM hg ⟨r, g⟩
        (mem_map.mpr ⟨(r, g), Map.mem_entries_iff.mpr hr, rfl⟩)
      exact (isValid_generationRow.mp hvalid).2.1

/-! ## What an answer depends on -/

/-- The two ledgers have the same caps, and the same rows and generation of the run `r`. -/
structure View (r : String) (l m : InMemoryBudgetLedger) : Prop where
  caps : m.caps = l.caps
  rows : m.rows.get? r = l.rows.get? r
  generation : m.generationFor r = l.generationFor r

theorem View.row? (h : View r l m) (i : String) : m.row? r i = l.row? r i := by
  rw [InMemoryBudgetLedger.row?, InMemoryBudgetLedger.row?, h.rows]

theorem View.rowsForRun (h : View r l m) : m.rowsForRun r = l.rowsForRun r := by
  rw [InMemoryBudgetLedger.rowsForRun, InMemoryBudgetLedger.rowsForRun, h.rows]

theorem View.usageFor (h : View r l m) : m.usageFor r = l.usageFor r := by
  rw [usageFor_eq, usageFor_eq, h.rowsForRun]

/-- What a call writes for its run. -/
inductive Write where
  | nothing
  | row (reservationId : String) (row : BudgetReservationRow)
  | generation (g : Nat)

def apply (l : InMemoryBudgetLedger) (r : String) : Write → InMemoryBudgetLedger
  | .nothing => l
  | .row i row => l.setRow r i row
  | .generation g => { l with generations := l.generations.set r g }

theorem reserve_view (h : View r l m) (now : Number) {input : BudgetReservationInput}
    (hr : input.runId = r) :
    ∃ a w, l.reserve now input = (a, l.apply r w) ∧ m.reserve now input = (a, m.apply r w) := by
  unfold reserve
  cases hc : input.check with
  | error e => exact ⟨_, .nothing, rfl, rfl⟩
  | ok q =>
    obtain ⟨-, hq, -⟩ := BudgetReservationInput.check_ok hc
    obtain rfl : q.runId = r := hq.trans hr
    have hwithin : ∀ t, m.within t ↔ l.within t := by
      intro t
      unfold within
      rw [h.caps]
    simp only [h.row?, h.generation, h.usageFor, hwithin]
    cases l.row? q.runId q.reservationId with
    | some existing =>
      dsimp only
      split <;> exact ⟨_, .nothing, rfl, rfl⟩
    | none =>
      dsimp only
      split
      · exact ⟨_, .nothing, rfl, rfl⟩
      · split
        · exact ⟨_, .nothing, rfl, rfl⟩
        · exact ⟨_, .row q.reservationId (q.row now), rfl, rfl⟩

theorem commit_view (h : View r l m) (now : Number) (i : String)
    (actual : BudgetActualUsage) :
    ∃ a w, l.commit now r i actual = (a, l.apply r w) ∧
      m.commit now r i actual = (a, m.apply r w) := by
  unfold commit
  simp only [h.row?]
  cases l.row? r i with
  | none => exact ⟨_, .nothing, rfl, rfl⟩
  | some row =>
    cases actual.check with
    | none => exact ⟨_, .nothing, rfl, rfl⟩
    | some a =>
      dsimp only
      cases row.state with
      | refunded => exact ⟨_, .nothing, rfl, rfl⟩
      | committed =>
        dsimp only
        split <;> exact ⟨_, .nothing, rfl, rfl⟩
      | reserved => exact ⟨_, .row i (row.committed a now), rfl, rfl⟩

theorem refund_view (h : View r l m) (now : Number) (i : String) :
    ∃ a w, l.refund now r i = (a, l.apply r w) ∧ m.refund now r i = (a, m.apply r w) := by
  unfold refund
  simp only [h.row?]
  cases l.row? r i with
  | none => exact ⟨_, .nothing, rfl, rfl⟩
  | some row =>
    dsimp only
    cases row.state with
    | committed => exact ⟨_, .nothing, rfl, rfl⟩
    | refunded => exact ⟨_, .nothing, rfl, rfl⟩
    | reserved => exact ⟨_, .row i (row.refunded now), rfl, rfl⟩

/-- A call for the run `r` answers and writes the same on two ledgers that agree on `r`. -/
theorem step_view (h : View r l m) {c : Call} (hr : c.op.run? = some r) :
    ∃ a w, l.step c = (a, l.apply r w) ∧ m.step c = (a, m.apply r w) := by
  obtain ⟨op, now⟩ := c
  cases op with
  | reserve input =>
    obtain ⟨a, w, hl, hm⟩ := reserve_view h now (Option.some.inj hr)
    exact ⟨.row a, w, congrArg (Prod.map Answer.row id) hl, congrArg (Prod.map Answer.row id) hm⟩
  | commit runId i actual =>
    obtain rfl := Option.some.inj hr
    obtain ⟨a, w, hl, hm⟩ := commit_view h now i actual
    exact ⟨.row a, w, congrArg (Prod.map Answer.row id) hl, congrArg (Prod.map Answer.row id) hm⟩
  | refund runId i =>
    obtain rfl := Option.some.inj hr
    obtain ⟨a, w, hl, hm⟩ := refund_view h now i
    exact ⟨.row a, w, congrArg (Prod.map Answer.row id) hl, congrArg (Prod.map Answer.row id) hm⟩
  | cancelRun runId =>
    obtain rfl := Option.some.inj hr
    by_cases hid : runIdRe runId = true
    · refine ⟨.cancelled (.ok (plus (l.generationFor runId) 1)),
        .generation (plus (l.generationFor runId) 1), ?_, ?_⟩
      · simp [step, cancelRun, hid, apply]
      · simp [step, cancelRun, hid, apply, h.generation]
    · refine ⟨.cancelled (.error (ledgerError "budget ledger: cancelRun run id is malformed")),
        .nothing, ?_, ?_⟩
      · simp [step, cancelRun, hid, apply, ledgerError]
      · simp [step, cancelRun, hid, apply, ledgerError]
  | generationFor runId =>
    obtain rfl := Option.some.inj hr
    exact ⟨_, .nothing, rfl, by simp [step, h.generation, apply]⟩
  | usageFor runId =>
    obtain rfl := Option.some.inj hr
    exact ⟨_, .nothing, rfl, by simp [step, h.usageFor, apply]⟩
  | usage | rows => cases hr

/-! ## Restart -/

/-- The two ledgers have the same caps, rows and generations. -/
structure Same (l m : InMemoryBudgetLedger) : Prop where
  caps : m.caps = l.caps
  rows : m.rows = l.rows
  generation : ∀ r, m.generationFor r = l.generationFor r

theorem Same.view (h : Same l m) (r : String) : View r l m := ⟨h.caps, by rw [h.rows], h.generation r⟩

theorem generationFor_apply (l : InMemoryBudgetLedger) (r x : String) (w : Write) :
    (l.apply r w).generationFor x =
      match w with
      | .generation g => if x = r then g else l.generationFor x
      | _ => l.generationFor x := by
  cases w with
  | generation g =>
    change ((l.generations.set r g).get? x).getD 1 = _
    rw [Map.get?_set]
    dsimp only
    split <;> rfl
  | nothing | row i row => rfl

theorem Same.apply (h : Same l m) (r : String) (w : Write) : Same (l.apply r w) (m.apply r w) where
  caps := by cases w <;> exact h.caps
  rows := by
    cases w with
    | nothing | generation g => exact h.rows
    | row i row =>
      change m.rows.set r ((m.rowsForRun r).set i row) = l.rows.set r ((l.rowsForRun r).set i row)
      rw [(h.view r).rowsForRun, h.rows]
  generation := by
    intro x
    rw [generationFor_apply, generationFor_apply]
    cases w <;> simp only [h.generation]

/-- Ledgers with the same rows and generations answer every sequence of calls alike. -/
theorem Same.transcript (h : Same l m) (calls : List Call) : m.transcript calls = l.transcript calls := by
  induction calls generalizing l m with
  | nil => rfl
  | cons c calls ih =>
    cases hr : c.op.run? with
    | some r =>
      obtain ⟨a, w, hl, hm⟩ := step_view (h.view r) hr
      rw [InMemoryBudgetLedger.transcript, InMemoryBudgetLedger.transcript, hl, hm]
      dsimp only
      rw [ih (h.apply r w)]
    | none =>
      obtain ⟨op, now⟩ := c
      cases op with
      | usage =>
        have heq : m.usage = l.usage := by simp only [usage, totals, h.rows]
        simp only [InMemoryBudgetLedger.transcript, step, heq, ih h]
      | rows =>
        have heq : m.allRows = l.allRows := by simp only [allRows, h.rows]
        simp only [InMemoryBudgetLedger.transcript, step, heq, ih h]
      | reserve | commit | refund | cancelRun | generationFor | usageFor => cases hr

/-! ## Isolation -/

/-- A call for another run, or for none, changes nothing of the run `r`. -/
theorem view_next {c : Call} (hc : c.op.run? ≠ some r) : View r l (l.next c) := by
  have hset : ∀ runId i row, runId ≠ r → View r l (l.setRow runId i row) := by
    intro runId i row hne
    refine ⟨rfl, ?_, rfl⟩
    unfold setRow
    exact Map.get?_set_ne (Ne.symm hne)
  rcases l.next_cases c with heq | ⟨input, q, hop, hq, -, -, -, heq⟩ |
    ⟨runId, i, actual, row, a, hop, -, -, -, heq⟩ | ⟨runId, i, row, hop, -, -, heq⟩ |
    ⟨runId, hop, -, heq⟩ <;> rw [heq]
  · exact ⟨rfl, rfl, rfl⟩
  · obtain ⟨-, hrun, -⟩ := BudgetReservationInput.check_ok hq
    rw [hop] at hc
    exact hset _ _ _ fun h => hc (by rw [← h, hrun]; rfl)
  · rw [hop] at hc
    exact hset _ _ _ fun h => hc (by rw [← h]; rfl)
  · rw [hop] at hc
    exact hset _ _ _ fun h => hc (by rw [← h]; rfl)
  · rw [hop] at hc
    refine ⟨rfl, rfl, ?_⟩
    change ((l.generations.set runId _).get? r).getD 1 = _
    rw [Map.get?_set_ne fun h => hc (by rw [h]; rfl)]
    rfl

theorem View.trans {k : InMemoryBudgetLedger} (h : View r l m) (h' : View r m k) :
    View r l k :=
  ⟨h'.caps.trans h.caps, h'.rows.trans h.rows, h'.generation.trans h.generation⟩

theorem View.symm (h : View r l m) : View r m l :=
  ⟨h.caps.symm, h.rows.symm, h.generation.symm⟩

theorem View.apply (h : View r l m) (w : Write) : View r (l.apply r w) (m.apply r w) where
  caps := by cases w <;> exact h.caps
  rows := by
    cases w with
    | nothing | generation g => exact h.rows
    | row i row =>
      change (m.rows.set r _).get? r = (l.rows.set r _).get? r
      rw [Map.get?_set_self, Map.get?_set_self, h.rowsForRun]
  generation := by
    rw [generationFor_apply, generationFor_apply]
    cases w <;> simp only [h.generation]

theorem transcript_filter_view (h : View r l m) (calls : List Call) :
    (l.transcript calls).filter (fun e => e.1.op.run? = some r) =
      m.transcript (calls.filter (fun c => c.op.run? = some r)) := by
  induction calls generalizing l m with
  | nil => rfl
  | cons c calls ih =>
    by_cases hr : c.op.run? = some r
    · obtain ⟨a, w, hl, hm⟩ := step_view h hr
      rw [filter_cons_of_pos (by simpa using hr), InMemoryBudgetLedger.transcript,
        InMemoryBudgetLedger.transcript, hl, hm, filter_cons_of_pos (by simpa using hr),
        ih (h.apply w)]
    · rw [filter_cons_of_neg (by simpa using hr), InMemoryBudgetLedger.transcript,
        filter_cons_of_neg (by simpa using hr)]
      exact ih ((view_next hr).symm.trans h)

/-! ## Main results -/

theorem caps_ofState
    (h : ofState caps state = .ok l) : l.caps = caps := by
  unfold ofState at h
  cases hg : state.generations.foldlM seedGeneration (fresh caps) with
  | error e => rw [hg] at h; cases h
  | ok x =>
    rw [hg] at h
    have hx : x.caps = caps := by
      refine Except.foldlM_invariant (I := fun l => l.caps = caps) (fun s a s' hs hs' => ?_) rfl hg
      obtain ⟨-, -, rfl⟩ := seedGeneration_ok hs'
      exact hs
    refine Except.foldlM_invariant (I := fun l => l.caps = caps) (fun s a s' hs hs' => ?_) hx h
    obtain ⟨-, -, rfl⟩ := seedRow_ok hs'
    exact hs

theorem sound_run {calls : List Call} (h : l.Sound)
    (hcalls : Machine.Along next (fun l c => l.regular c = true) l calls) : (l.run calls).Sound :=
  Machine.Along.invariant (I := Sound) (fun _ _ hl hc => sound_next hl hc) hcalls h

/-- For every ledger that the constructor built and every history of regular calls: a ledger built from
the payload of the ledger reached accepts it and answers every later sequence of calls alike, if and
only if every run's generation is a safe integer. And whatever else is called, the answers to one run's
calls are those of the sequence of its calls alone. -/
theorem restart_equivalent (caps : GatewayBudgetLimits) (state : BudgetDurableState)
    (l : InMemoryBudgetLedger) (hl : ofState caps state = .ok l) (calls : List Call)
    (hcalls : Machine.Along next (fun l c => l.regular c = true) l calls) :
    ((∃ m, ofState caps (l.run calls).durableState = .ok m ∧
        ∀ later, m.transcript later = (l.run calls).transcript later) ↔
      ∀ runId, (l.run calls).generationFor runId ≤ maxSafe) ∧
    ∀ runId mixed, (l.transcript mixed).filter (fun e => e.1.op.run? = some runId) =
      l.transcript (mixed.filter (fun c => c.op.run? = some runId)) := by
  refine ⟨⟨fun ⟨m, hm, _⟩ => safe_of_ofState hm, fun hsafe => ?_⟩,
    fun runId mixed => transcript_filter_view ⟨rfl, rfl, rfl⟩ mixed⟩
  obtain ⟨m, hm, hcaps, hrows, hgens⟩ :=
    ofState_durableState (sound_run (sound_ofState hl) hcalls) hsafe
  rw [caps_run, caps_ofState hl] at hm
  exact ⟨m, hm, fun later => Same.transcript ⟨hcaps, hrows, hgens⟩ later⟩

/-- A budget of two requests. -/
def twoRequests : GatewayBudgetLimits :=
  ⟨2, 1000, 0, Nat.two_pos, one_le_thousand, two_le_maxBudgetLimit, thousand_le_maxBudgetLimit, Nat.zero_le _⟩

/-- A reservation, a commit and a cancellation of the run "r". -/
def oneCall : List Call :=
  [⟨.reserve ⟨"a", "r", 1, "p", 10, 0⟩, 5⟩, ⟨.commit "r" "a" ⟨1, 7, 0⟩, 6⟩, ⟨.cancelRun "r", 7⟩]

theorem generationFor_oneCall (runId : String) :
    ((fresh twoRequests).run oneCall).generationFor runId ≤ maxSafe := by
  have hgens : ((fresh twoRequests).run oneCall).generations.entries = [("r", 2)] := by
    decide +kernel
  rw [generationFor, Map.get?, hgens]
  simp only [Map.lookup_cons_ite, lookup_nil]
  split <;> decide

theorem restart_equivalent_once :
    (∃ m, ofState twoRequests ((fresh twoRequests).run oneCall).durableState = .ok m ∧
      ∀ later, m.transcript later = ((fresh twoRequests).run oneCall).transcript later) ∧
    ∀ runId mixed, ((fresh twoRequests).transcript mixed).filter
        (fun e => e.1.op.run? = some runId) =
      (fresh twoRequests).transcript (mixed.filter (fun c => c.op.run? = some runId)) := by
  have h := restart_equivalent twoRequests ⟨[], []⟩ (fresh twoRequests) rfl oneCall
    (by decide +kernel)
  exact ⟨h.1.mpr generationFor_oneCall, h.2⟩

/-- A cancellation of the run "r". -/
def cancelOnce : Call := ⟨.cancelRun "r", 1⟩

theorem regular_cancelOnce (l : InMemoryBudgetLedger) : l.regular cancelOnce = true :=
  regular_iff.mpr ⟨by decide +kernel, by decide +kernel, fun input h => by cases h⟩

theorem generationFor_cancelOnce (l : InMemoryBudgetLedger) :
    (l.next cancelOnce).generationFor "r" = plus (l.generationFor "r") 1 := by
  have hid : runIdRe "r" = true := by decide +kernel
  have hnext : l.next cancelOnce =
      { l with generations := l.generations.set "r" (plus (l.generationFor "r") 1) } := by
    simp [next, step, cancelOnce, cancelRun, hid]
  rw [hnext]
  change ((l.generations.set "r" _).get? "r").getD 1 = _
  rw [Map.get?_set_self]
  rfl

theorem generationFor_cancels (caps : GatewayBudgetLimits) {n : Nat} (h : n + 1 < 2 ^ 53) :
    ((fresh caps).run (List.replicate n cancelOnce)).generationFor "r" = n + 1 := by
  induction n with
  | zero => rfl
  | succ n ih =>
    rw [replicate_succ', run, Machine.run_append]
    change (((fresh caps).run (List.replicate n cancelOnce)).next cancelOnce).generationFor "r" = _
    rw [generationFor_cancelOnce, ih (by omega), plus_of_lt h]

/-- The generation that the last safe integer is raised to is recorded, and the payload with it is
refused: after `2 ^ 53 - 1` cancellations of a run on a new ledger, and after one on a ledger that was
re-seeded with the last safe generation. -/
theorem restart_refused :
    (¬∀ calls, Machine.Along next (fun l c => l.regular c = true) (fresh twoRequests) calls →
      ∃ m, ofState twoRequests ((fresh twoRequests).run calls).durableState = .ok m) ∧
    ∃ l, ofState twoRequests ⟨[], [⟨"r", 9007199254740991⟩]⟩ = .ok l ∧
      ¬∃ m, ofState twoRequests (l.run [cancelOnce]).durableState = .ok m := by
  refine ⟨fun h => ?_, _, rfl, ?_⟩
  · obtain ⟨m, hm⟩ := h (List.replicate (2 ^ 53 - 2) cancelOnce ++ [cancelOnce])
      (Machine.along_of_mem fun l c hc => by
        rw [← replicate_succ'] at hc
        rw [eq_of_mem_replicate hc]
        exact regular_cancelOnce l)
    have hle := safe_of_ofState hm "r"
    rw [run, Machine.run_append] at hle
    change (next (run _ _) cancelOnce).generationFor "r" ≤ maxSafe at hle
    rw [generationFor_cancelOnce, generationFor_cancels _ (by omega)] at hle
    exact absurd hle (by decide +kernel)
  · rintro ⟨m, hm⟩
    have hle := safe_of_ofState hm "r"
    change (next _ cancelOnce).generationFor "r" ≤ maxSafe at hle
    rw [generationFor_cancelOnce] at hle
    exact absurd hle (by decide +kernel)

end InMemoryBudgetLedger

end PrReviewer.Gateway
