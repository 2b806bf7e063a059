import PrReviewer.Tools.Turns

/-!
# The reserved window

Once the requests or the rounds left are within the reservation, a call must serve a row that is still active.

- `Grows` is how the decisions move: rows are only ever discharged and attempts only ever counted, so a row that
  is inactive stays so.
- `Enforced` is what the window promises. It holds in every state of a run exactly when no call of the window
  goes to released rows alone (`DecidedCall.serves`): `targets` leaves out the discharged rows only, and lets such
  a call run.
-/

open Js List

namespace PrReviewer.Tools

open Model

section

variable (o : DriveToolLoopOptions)

/-! ## Decisions of the log -/

namespace DecidedCall

variable (p : DecidedCall)

/-- The call is run and advances an active row. -/
def advances : Bool :=
  p.args?.any fun args => (p.before.targets o p.call.name args).any fun target => p.before.rowActive o target.1

/-- A call to the evidence channel while a dependency row is active. -/
def isEvidence : Bool := dependencyEvidenceTools.contains p.call.name && p.before.anyActiveShapeRow o

/-- A call that is run and serves no active row. -/
def isStray : Bool := p.args?.isSome && !p.advances o && !p.isEvidence o

/-- A call to the evidence channel that is run inside the window. -/
def isWindowEvidence : Bool :=
  p.args?.isSome && dependencyEvidenceTools.contains p.call.name && p.before.inWindow o p.rounds

/-- The slot of a trace row that a call covers, if it is run while a row is active. -/
def coveredSlot (row : RequiredEvidenceRow) : Option TraceEvidenceSlot :=
  p.args?.bind fun args =>
    if p.before.hasActiveRow o then (p.before.target? p.call.name args row).bind Prod.snd else none

/-- A call that comes in the window, within the budget and no duplicate, and targets a row targets an active one. -/
def serves : Bool :=
  match parseArguments o p.call.arguments with
  | .error _ => true
  | .ok args =>
    p.before.seenKeys.contains (requestKey p.call.name args) || decide (o.budgets.maxToolCalls ≤ p.before.callsExecuted) ||
      !p.before.hasActiveRow o || !p.before.inWindow o p.rounds || (p.before.targets o p.call.name args).isEmpty ||
      (p.before.targets o p.call.name args).any fun target => p.before.rowActive o target.1

end DecidedCall

variable {o} in
theorem DecidedCall.serves_iff {p : DecidedCall} : p.serves o = true ↔
    ∀ args, parseArguments o p.call.arguments = .ok args → requestKey p.call.name args ∉ p.before.seenKeys →
      p.before.callsExecuted < o.budgets.maxToolCalls → p.before.hasActiveRow o = true →
      p.before.inWindow o p.rounds = true → p.before.targets o p.call.name args ≠ [] →
      ∃ target ∈ p.before.targets o p.call.name args, p.before.rowActive o target.1 = true := by
  unfold serves
  cases parseArguments o p.call.arguments with
  | error message => simp
  | ok args =>
    simp only [Except.ok.injEq, forall_eq', Bool.or_eq_true, Bool.not_eq_true', contains_eq_mem, decide_eq_true_eq,
      List.isEmpty_iff, any_eq_true, ← Nat.not_lt]
    grind

/-- What the window promises of the calls decided so far. -/
structure Enforced (s : LoopState) : Prop where
  /-- A row that is inactive stays inactive. -/
  inactive : ∀ row, (s.decided.Pairwise fun p q => q.before.rowActive o row = true → p.before.rowActive o row = true) ∧
    ∀ p ∈ s.decided, s.decisions.rowActive o row = true → p.before.rowActive o row = true
  /-- A call that serves no active row is run with no row active, or with more than the reservation left. -/
  strays : ∀ p ∈ s.decided, p.isStray o = true → p.before.hasActiveRow o = false ∨
    ((o.reserve : Int) < o.budgets.maxToolCalls - p.before.callsExecuted ∧
      (o.reserve : Int) < o.budgets.maxRounds - (p.rounds - 1))
  few : s.decisions.hasActiveRow o = true →
    s.decided.countP (·.isStray o) + o.reserve ≤ o.budgets.maxToolCalls
  /-- A row is discharged by a seed or by a call that is run and targets it. -/
  discharged : ∀ id ∈ s.decisions.discharged, id ∈ o.seededCredits ∨ ∃ p ∈ s.decided, ∃ args, p.args? = some args ∧
    ∃ target ∈ p.before.targets o p.call.name args, target.1.id = id
  /-- The calls that covered a slot of a discharged trace row are as many as its slots, one for each. -/
  slots : ∀ row ∈ o.pendingRows, row.trace = true → row.id ∈ s.decisions.discharged → row.id ∉ o.seededCredits →
    (s.decided.filterMap (DecidedCall.coveredSlot o · row)).Perm (traceRowSlots row)
  /-- A refusal changes no request count, no dedup set and no credit. -/
  refused : ∀ p ∈ s.decided, ∀ message, p.decided.disposition = .reserve message → p.decided.after =
    { p.before with requiredEvidenceRefusals := p.before.requiredEvidenceRefusals + 1 }
  /-- Behind as many evidence calls in the window as the cap allows, no dependency row is active. -/
  released : o.attemptsCap ≤ o.requiredEvidenceWindowAttemptsPrior.toNat + s.decided.countP (·.isWindowEvidence o) →
    ∀ row ∈ o.pendingRows, row.obligation.isSome = true → s.decisions.rowActive o row = false

/-! ## How the decisions move -/

structure Decisions.Grows (d d' : Decisions) : Prop where
  discharged : d.discharged ⊆ d'.discharged
  attempts : d.windowEvidenceAttempts ≤ d'.windowEvidenceAttempts

namespace Decisions

variable {o} {d d' d'' : Decisions} {row : RequiredEvidenceRow}

theorem Grows.refl (d : Decisions) : Grows d d := ⟨List.Subset.refl _, Nat.le_refl _⟩

theorem Grows.trans (h : Grows d d') (h' : Grows d' d'') : Grows d d'' :=
  ⟨List.Subset.trans h.discharged h'.discharged, h.attempts.trans h'.attempts⟩

theorem Grows.rowActive (h : Grows d d') (hactive : d'.rowActive o row = true) : d.rowActive o row = true := by
  have hdischarged := @h.discharged row.id
  have hattempts := h.attempts
  simp only [Decisions.rowActive, Bool.and_eq_true, Bool.not_eq_true', Bool.and_eq_false_iff,
    contains_eq_mem, decide_eq_false_iff_not] at hactive ⊢
  refine ⟨fun hmem => hactive.1 (hdischarged hmem), ?_⟩
  rcases hactive.2 with hnone | hcap
  · exact .inl hnone
  · exact .inr (by omega)

theorem Grows.hasActiveRow (h : Grows d d') (hactive : d'.hasActiveRow o = true) : d.hasActiveRow o = true := by
  obtain ⟨row, hrow, hactive⟩ := any_eq_true.mp hactive
  exact any_eq_true.mpr ⟨row, hrow, h.rowActive hactive⟩

theorem grows_credit (p : Decisions × Nat × Nat) (target : RequiredEvidenceRow × Option TraceEvidenceSlot) :
    Grows p.1 (credit p target).1 := by
  obtain ⟨d, rows, slots⟩ := p
  unfold credit
  dsimp only
  split
  · split
    · exact ⟨subset_append_left _ _, Nat.le_refl _⟩
    · exact ⟨List.Subset.refl _, Nat.le_refl _⟩
  · exact ⟨subset_append_left _ _, Nat.le_refl _⟩

theorem grows_foldl_credit (ts : List (RequiredEvidenceRow × Option TraceEvidenceSlot))
    (p : Decisions × Nat × Nat) : Grows p.1 (ts.foldl credit p).1 := by
  induction ts generalizing p with
  | nil => exact .refl _
  | cons target ts ih => exact (grows_credit p target).trans (ih _)

theorem grows_execute (d : Decisions) (name key : String) (counts : Bool) : Grows d (d.execute name key counts) :=
  ⟨List.Subset.refl _, Nat.le_add_right _ _⟩

end Decisions

theorem grows_decideCall (rounds : Nat) (d : Decisions) (call : ToolCallRecord) :
    d.Grows (decideCall o rounds d call).after := by
  obtain ⟨refusals, disposition, -, heq⟩ | ⟨args, -, heq⟩ := decideCall_cases o rounds d call
  · rw [heq]
    exact ⟨List.Subset.refl _, Nat.le_refl _⟩
  · rw [heq]
    exact (Decisions.grows_foldl_credit _ (d, 0, 0)).trans (Decisions.grows_execute _ _ _ _)

/-! ## The slots of a trace row -/

variable {o} {d : Decisions} {row : RequiredEvidenceRow} {name : String} {args : List (String × Value)}

variable {slot : TraceEvidenceSlot}

theorem mem_of_traceSlotCreditForCall {unmet : List TraceEvidenceSlot}
    (h : traceSlotCreditForCall row name args unmet = some slot) : slot ∈ unmet := by
  unfold traceSlotCreditForCall at h
  dsimp only at h
  split at h
  · cases h
  · split at h
    · rcases Option.or_eq_some_iff.mp h with hseam | ⟨-, hrow⟩
      · obtain ⟨p, -, hp⟩ := List.exists_of_findSome?_eq_some hseam
        obtain ⟨kind, -, hkind⟩ := Option.bind_eq_some_iff.mp hp
        exact List.mem_of_find?_eq_some hkind
      · split at hrow
        · exact List.mem_of_find?_eq_some hrow
        · cases hrow
    · split at h
      · split at h
        · exact List.mem_of_find?_eq_some h
        · split at h
          · exact List.mem_of_find?_eq_some h
          · cases h
      · split at h
        · exact List.mem_of_find?_eq_some h
        · cases h

theorem mem_traceUnmetSlots {credited : List TraceEvidenceSlot} :
    slot ∈ traceUnmetSlots row credited ↔ slot ∈ traceRowSlots row ∧ slot ∉ credited := by
  simp [traceUnmetSlots]

theorem nodup_traceRowSlots (row : RequiredEvidenceRow) : (traceRowSlots row).Nodup := by
  unfold traceRowSlots
  split
  · exact nodup_nil
  · split
    · -- The seams are different, and so are the two slots of one seam.
      refine nodup_flatMap.mpr ⟨fun index _ => by simp, ?_⟩
      refine nodup_range.imp fun {i j} hne => ?_
      simp only [Function.onFun, disjoint_left, mem_cons, not_mem_nil, or_false]
      rintro slot (rfl | rfl) <;> simp [hne]
    · split <;> decide

namespace Decisions

variable {target : RequiredEvidenceRow × Option TraceEvidenceSlot}

theorem fst_of_target?
    (h : d.target? name args row = some target) : target.1 = row := by
  unfold target? at h
  split at h
  · cases h
  · split at h
    · obtain ⟨slot, -, rfl⟩ := Option.map_eq_some_iff.mp h
      rfl
    · split at h
      · cases h
        rfl
      · cases h

/-- The credit to rows with other ids. -/
theorem credit_other (h : target.1.id ≠ row.id)
    (p : Decisions × Nat × Nat) :
    (credit p target).1.creditedSlots row = p.1.creditedSlots row ∧
      (row.id ∈ (credit p target).1.discharged ↔ row.id ∈ p.1.discharged) := by
  obtain ⟨d, rows, slots⟩ := p
  obtain ⟨other, slot⟩ := target
  unfold credit
  dsimp only at h ⊢
  split
  · split <;> simp [creditedSlots, Map.get?_set_ne (Ne.symm h), Ne.symm h]
  · simp [creditedSlots, Ne.symm h]

theorem foldl_credit_other {ts : List (RequiredEvidenceRow × Option TraceEvidenceSlot)}
    (h : ∀ target ∈ ts, target.1.id ≠ row.id) (p : Decisions × Nat × Nat) :
    (ts.foldl credit p).1.creditedSlots row = p.1.creditedSlots row ∧
      (row.id ∈ (ts.foldl credit p).1.discharged ↔ row.id ∈ p.1.discharged) := by
  induction ts generalizing p with
  | nil => exact ⟨rfl, Iff.rfl⟩
  | cons target ts ih =>
    obtain ⟨hslots, hdischarged⟩ := ih (fun t ht => h t (mem_cons_of_mem _ ht)) (credit p target)
    obtain ⟨hslots', hdischarged'⟩ := credit_other (h target mem_cons_self) p
    exact ⟨hslots.trans hslots', hdischarged.trans hdischarged'⟩

/-- The credit of a slot to a trace row. -/
theorem credit_slot (htrace : row.trace = true) (slot : TraceEvidenceSlot) (p : Decisions × Nat × Nat) :
    (credit p (row, some slot)).1.creditedSlots row = p.1.creditedSlots row ++ [slot] ∧
      (row.id ∈ (credit p (row, some slot)).1.discharged →
        row.id ∈ p.1.discharged ∨ traceRowSlots row ⊆ p.1.creditedSlots row ++ [slot]) := by
  obtain ⟨d, rows, slots⟩ := p
  unfold credit
  dsimp only
  rw [if_pos htrace]
  dsimp only
  split
  · next hall =>
    refine ⟨by simp [creditedSlots], fun _ => .inr fun candidate hcandidate => ?_⟩
    have := all_eq_true.mp hall candidate hcandidate
    simpa [creditedSlots] using this
  · exact ⟨by simp [creditedSlots], .inl⟩

end Decisions

/-- A row whose id no other tracked row has. -/
theorem alone_of_count (hrow : row ∈ o.pendingRows)
    (hcount : (o.pendingRows.countP fun other => decide (other.id = row.id)) = 1) :
    ∃ before behind, o.pendingRows = before ++ row :: behind ∧ (∀ other ∈ before, other.id ≠ row.id) ∧
      ∀ other ∈ behind, other.id ≠ row.id := by
  obtain ⟨before, behind, heq⟩ := append_of_mem hrow
  rw [heq, countP_append, countP_cons_of_pos (by simp)] at hcount
  have hbefore : (before.countP fun other => decide (other.id = row.id)) = 0 := by omega
  have hbehind : (behind.countP fun other => decide (other.id = row.id)) = 0 := by omega
  refine ⟨before, behind, heq, ?_, ?_⟩
  · simpa using countP_eq_zero.mp hbefore
  · simpa using countP_eq_zero.mp hbehind

/-- What the decisions and the log say of a trace row. -/
structure Ledger (o : DriveToolLoopOptions) (row : RequiredEvidenceRow) (d : Decisions) (log : List DecidedCall) :
    Prop where
  credited : d.creditedSlots row = log.filterMap (DecidedCall.coveredSlot o · row)
  nodup : (d.creditedSlots row).Nodup
  slots : d.creditedSlots row ⊆ traceRowSlots row
  discharged : row.id ∈ d.discharged → row.id ∈ o.seededCredits ∨ traceRowSlots row ⊆ d.creditedSlots row

theorem Ledger.of_same {d' : Decisions} {log : List DecidedCall} {p : DecidedCall} (h : Ledger o row d log)
    (hslots : d'.creditedSlots row = d.creditedSlots row) (hdischarged : row.id ∈ d'.discharged ↔ row.id ∈ d.discharged)
    (hnone : p.coveredSlot o row = none) : Ledger o row d' (log ++ [p]) := by
  refine ⟨?_, hslots ▸ h.nodup, hslots ▸ h.slots, fun hmem => hslots ▸ h.discharged (hdischarged.mp hmem)⟩
  rw [hslots, h.credited]
  simp [hnone]

/-- What an admitted call credits to a trace row: the slot that it covers, if any. -/
theorem credits_row (htrace : row.trace = true) (hrow : row ∈ o.pendingRows)
    (hcount : (o.pendingRows.countP fun other => decide (other.id = row.id)) = 1) :
    let after := ((d.targets o name args).foldl Decisions.credit (d, 0, 0)).1
    (d.target? name args row = none ∧ after.creditedSlots row = d.creditedSlots row ∧
        (row.id ∈ after.discharged ↔ row.id ∈ d.discharged)) ∨
      ∃ slot, d.target? name args row = some (row, some slot) ∧ slot ∈ traceRowSlots row ∧
        slot ∉ d.creditedSlots row ∧ after.creditedSlots row = d.creditedSlots row ++ [slot] ∧
        (row.id ∈ after.discharged → row.id ∈ d.discharged ∨ traceRowSlots row ⊆ d.creditedSlots row ++ [slot]) := by
  -- The row stands between rows with other ids.
  obtain ⟨before, behind, hrows, hbefore, hbehind⟩ := alone_of_count hrow hcount
  have hother : ∀ rows : List RequiredEvidenceRow, (∀ other ∈ rows, other.id ≠ row.id) →
      ∀ target ∈ rows.filterMap (d.target? name args), target.1.id ≠ row.id := by
    intro rows hrows target htarget
    obtain ⟨other, hother, htarget⟩ := mem_filterMap.mp htarget
    rw [Decisions.fst_of_target? htarget]
    exact hrows other hother
  dsimp only
  rw [Decisions.targets, hrows, filterMap_append, filterMap_cons]
  cases htarget : d.target? name args row with
  | none =>
    have hfold := @Decisions.foldl_credit_other row _
      (forall_mem_append.mpr ⟨hother before hbefore, hother behind hbehind⟩) (d, 0, 0)
    exact .inl ⟨rfl, hfold.1, hfold.2⟩
  | some target =>
    by_cases hdischarged : d.discharged.contains row.id = true
    · rw [Decisions.target?, if_pos hdischarged] at htarget
      cases htarget
    · have hslot := htarget
      rw [Decisions.target?, if_neg hdischarged, if_pos htrace] at hslot
      obtain ⟨slot, hcovers, rfl⟩ := Option.map_eq_some_iff.mp hslot
      obtain ⟨hmem, hfresh⟩ := mem_traceUnmetSlots.mp (mem_of_traceSlotCreditForCall hcovers)
      refine .inr ⟨slot, rfl, hmem, hfresh, ?_⟩
      rw [foldl_append, foldl_cons]
      have hfold := Decisions.foldl_credit_other (hother before hbefore) (d, 0, 0)
      have hcredit := Decisions.credit_slot htrace slot
        ((before.filterMap (d.target? name args)).foldl Decisions.credit (d, 0, 0))
      have hfold' := Decisions.foldl_credit_other (hother behind hbehind) (Decisions.credit
        ((before.filterMap (d.target? name args)).foldl Decisions.credit (d, 0, 0)) (row, some slot))
      rw [hfold.1] at hcredit
      refine ⟨hfold'.1.trans hcredit.1, fun hmem => ?_⟩
      exact (hcredit.2 (hfold'.2.mp hmem)).imp hfold.2.mp id

theorem ledger_decideCall (hreserve : 0 < o.reserve) (htrace : row.trace = true) (hrow : row ∈ o.pendingRows)
    (hcount : (o.pendingRows.countP fun other => decide (other.id = row.id)) = 1) {log : List DecidedCall}
    (h : Ledger o row d log) (rounds : Nat) (call : ToolCallRecord) :
    Ledger o row (decideCall o rounds d call).after (log ++ [⟨rounds, d, call, decideCall o rounds d call⟩]) := by
  obtain ⟨refusals, disposition, hargs, heq⟩ | ⟨args, -, heq⟩ := decideCall_cases o rounds d call
  · rw [heq]
    exact h.of_same rfl Iff.rfl (by simp [DecidedCall.coveredSlot, DecidedCall.args?, hargs])
  · rw [heq]
    have hcovered : DecidedCall.coveredSlot o ⟨rounds, d, call, admitted o rounds d call args⟩ row =
        if d.hasActiveRow o then (d.target? call.name args row).bind Prod.snd else none := rfl
    by_cases hactive : d.hasActiveRow o = true
    · have htracking : d.tracking o = true := by simp [Decisions.tracking, hreserve, hactive]
      have hafter : (admitted o rounds d call args).after = (((d.targets o call.name args).foldl Decisions.credit
          (d, 0, 0)).1.execute call.name (requestKey call.name args) (d.tracking o && d.inWindow o rounds)) := by
        rw [admitted, if_pos htracking]
      rw [if_pos hactive] at hcovered
      obtain ⟨htarget, hslots, hdischarged⟩ | ⟨slot, htarget, hmem, hfresh, hslots, hdischarged⟩ :=
        @credits_row o d row call.name args htrace hrow hcount
      · exact h.of_same (by rw [hafter]; exact hslots) (by rw [hafter]; exact hdischarged) (by rw [hcovered, htarget]; rfl)
      · have hslots' : (admitted o rounds d call args).after.creditedSlots row = d.creditedSlots row ++ [slot] := by
          rw [hafter]
          exact hslots
        refine ⟨?_, ?_, ?_, fun hmem' => ?_⟩
        · rw [hslots', filterMap_append, h.credited, filterMap_cons, hcovered, htarget]
          rfl
        · rw [hslots', nodup_append_comm]
          exact nodup_cons.mpr ⟨hfresh, h.nodup⟩
        · rw [hslots']
          exact append_subset.mpr ⟨h.slots, by simpa using hmem⟩
        · rw [hafter] at hmem'
          rw [hslots']
          rcases hdischarged hmem' with hold | hall
          · exact (h.discharged hold).imp_right fun hsub => List.Subset.trans hsub (subset_append_left _ _)
          · exact .inr hall
    · have htracking : d.tracking o = false := by simpa [Decisions.tracking, hreserve] using hactive
      rw [if_neg hactive] at hcovered
      have hafter : (admitted o rounds d call args).after =
          d.execute call.name (requestKey call.name args) false := by
        simp [admitted, htracking]
      exact h.of_same (by rw [hafter]; rfl) (by rw [hafter]; rfl) hcovered

/-! ## The run -/

theorem Decisions.mem_discharged_foldl {ts : List (RequiredEvidenceRow × Option TraceEvidenceSlot)}
    {p : Decisions × Nat × Nat} {id : String} (h : id ∈ (ts.foldl credit p).1.discharged) :
    id ∈ p.1.discharged ∨ ∃ target ∈ ts, target.1.id = id := by
  induction ts generalizing p with
  | nil => exact .inl h
  | cons target ts ih =>
    rcases ih h with h | ⟨target', htarget', hid⟩
    · by_cases hid : target.1.id = id
      · exact .inr ⟨target, mem_cons_self, hid⟩
      · left
        obtain ⟨d, rows, slots⟩ := p
        unfold credit at h
        dsimp only at h hid ⊢
        split at h
        · split at h
          · simpa [Ne.symm hid] using h
          · exact h
        · simpa [Ne.symm hid] using h
    · exact .inr ⟨target', mem_cons_of_mem _ htarget', hid⟩

/-- The decisions so far and their log. -/
structure Trail (o : DriveToolLoopOptions) (d : Decisions) (log : List DecidedCall) : Prop where
  made : ∀ p ∈ log, p.decided = decideCall o p.rounds p.before p.call
  grows : ∀ p ∈ log, p.before.Grows d
  ordered : log.Pairwise fun p q => p.before.Grows q.before
  discharged : ∀ id ∈ d.discharged, id ∈ o.seededCredits ∨ ∃ p ∈ log, ∃ args, p.args? = some args ∧
    ∃ target ∈ p.before.targets o p.call.name args, target.1.id = id
  /-- While a row is active every evidence call of the window has been counted. -/
  counted : d.hasActiveRow o = true →
    o.requiredEvidenceWindowAttemptsPrior.toNat + log.countP (·.isWindowEvidence o) ≤ d.windowEvidenceAttempts
  strays : log.countP (·.isStray o) ≤ d.callsExecuted
  few : (∀ p ∈ log, p.serves o = true) → d.hasActiveRow o = true →
    log.countP (·.isStray o) + o.reserve ≤ o.budgets.maxToolCalls

/-- A call that is run fulfils what the decision asks for. -/
theorem admits_of_args? {p : DecidedCall} (hmade : p.decided = decideCall o p.rounds p.before p.call)
    (hargs : p.args? = some args) : Admits o p.rounds p.before p.call args := by
  obtain ⟨refusals, disposition, hnone, heq⟩ | ⟨args', hadmits, heq⟩ := decideCall_cases o p.rounds p.before p.call
  · rw [DecidedCall.args?, hmade, heq, hnone] at hargs
    cases hargs
  · rw [DecidedCall.args?, hmade, heq] at hargs
    cases hargs
    exact hadmits

theorem reserve_of_isStray (hreserve : 0 < o.reserve) {p : DecidedCall}
    (hmade : p.decided = decideCall o p.rounds p.before p.call) (hserves : p.serves o = true) (hstray : p.isStray o = true) :
    p.before.hasActiveRow o = false ∨ ((o.reserve : Int) < o.budgets.maxToolCalls - p.before.callsExecuted ∧
      (o.reserve : Int) < o.budgets.maxRounds - (p.rounds - 1)) := by
  simp only [DecidedCall.isStray, Bool.and_eq_true, Bool.not_eq_true', Option.isSome_iff_exists] at hstray
  obtain ⟨⟨⟨args, hargs⟩, hadvances⟩, hevidence⟩ := hstray
  have hadmits := admits_of_args? hmade hargs
  by_cases hactive : p.before.hasActiveRow o = true
  · right
    by_cases hwindow : p.before.inWindow o p.rounds = true
    · rcases hadmits.advances hreserve hactive hwindow with htargets | ⟨htool, hshape⟩
      · obtain ⟨target, htarget, hrow⟩ := DecidedCall.serves_iff.mp hserves args
          hadmits.parsed hadmits.fresh hadmits.within hactive hwindow htargets
        refine absurd hadvances (Bool.not_eq_false _ ▸ ?_)
        simp only [DecidedCall.advances, hargs, Option.any_some]
        exact any_eq_true.mpr ⟨target, htarget, hrow⟩
      · refine absurd hevidence (Bool.not_eq_false _ ▸ ?_)
        simp only [DecidedCall.isEvidence, htool, hshape, Bool.and_self]
    · simp only [Decisions.inWindow, Bool.or_eq_true, decide_eq_true_eq] at hwindow
      omega
  · exact .inl (by simpa using hactive)

theorem trail_decideCall (hreserve : 0 < o.reserve) {log : List DecidedCall} (h : Trail o d log) (rounds : Nat)
    (call : ToolCallRecord) :
    Trail o (decideCall o rounds d call).after (log ++ [⟨rounds, d, call, decideCall o rounds d call⟩]) := by
  have hgrows := grows_decideCall o rounds d call
  have hmade : ∀ p ∈ log ++ [⟨rounds, d, call, decideCall o rounds d call⟩],
      p.decided = decideCall o p.rounds p.before p.call :=
    forall_mem_append.mpr ⟨h.made, by simp⟩
  have hordered : List.Pairwise (fun p q : DecidedCall => p.before.Grows q.before)
      (log ++ [⟨rounds, d, call, decideCall o rounds d call⟩]) :=
    pairwise_append.mpr ⟨h.ordered, pairwise_singleton _ _, by simpa using h.grows⟩
  have hall : ∀ p ∈ log ++ [⟨rounds, d, call, decideCall o rounds d call⟩],
      p.before.Grows (decideCall o rounds d call).after :=
    forall_mem_append.mpr ⟨fun p hp => (h.grows p hp).trans hgrows, by simpa using hgrows⟩
  obtain ⟨refusals, disposition, hargs, heq⟩ | ⟨args, hadmits, heq⟩ := decideCall_cases o rounds d call
  · -- The call is not run.
    rw [heq] at hmade hordered hall ⊢
    refine ⟨hmade, hall, hordered, fun id hid => ?_, fun hactive => ?_, ?_, fun hserves hactive => ?_⟩
    · exact (h.discharged id hid).imp_right fun ⟨p, hp, hexecuted⟩ => ⟨p, mem_append_left _ hp, hexecuted⟩
    · simpa [DecidedCall.isWindowEvidence, DecidedCall.args?, hargs] using h.counted hactive
    · simpa [DecidedCall.isStray, DecidedCall.args?, hargs] using h.strays
    · have := h.few (fun p hp => hserves p (mem_append_left _ hp)) hactive
      simpa [DecidedCall.isStray, DecidedCall.args?, hargs] using this
  · obtain ⟨discharged, traceCredited, hafter⟩ := after_admitted o rounds d call args
    rw [heq] at hmade hordered hall hgrows ⊢
    refine ⟨hmade, hall, hordered, fun id hid => ?_, fun hactive => ?_, ?_, fun hserves hactive => ?_⟩
    · have hid' : id ∈ ((if d.tracking o then d.targets o call.name args else []).foldl Decisions.credit
          (d, 0, 0)).1.discharged := hid
      rcases Decisions.mem_discharged_foldl hid' with hold | ⟨target, htarget, hid⟩
      · exact (h.discharged id hold).imp_right fun ⟨p, hp, hexecuted⟩ => ⟨p, mem_append_left _ hp, hexecuted⟩
      · refine .inr ⟨_, mem_append_right _ mem_cons_self, args, rfl, target, ?_, hid⟩
        split at htarget
        · exact htarget
        · cases htarget
    · have hbefore := hgrows.hasActiveRow hactive
      have htracking : d.tracking o = true := by simp [Decisions.tracking, hreserve, hbefore]
      have hcounted := h.counted hbefore
      have hcounts : DecidedCall.isWindowEvidence o ⟨rounds, d, call, admitted o rounds d call args⟩ =
          (dependencyEvidenceTools.contains call.name && (d.tracking o && d.inWindow o rounds)) := by
        simp [DecidedCall.isWindowEvidence, DecidedCall.args?, admitted, Disposition.args?, htracking]
      rw [hafter, countP_append, countP_singleton, hcounts]
      dsimp only
      omega
    · rw [hafter, countP_append, countP_singleton]
      have := h.strays
      dsimp only
      split <;> omega
    · have hbefore := hgrows.hasActiveRow hactive
      have hfew := h.few (fun p hp => hserves p (mem_append_left _ hp)) hbefore
      have hstrays := h.strays
      rw [countP_append, countP_singleton]
      split
      · next hstray =>
        have hlast := mem_append_right log (mem_singleton_self
          (⟨rounds, d, call, admitted o rounds d call args⟩ : DecidedCall))
        rcases reserve_of_isStray hreserve (hmade _ hlast) (hserves _ hlast) hstray with hnone | ⟨hleft, -⟩
        · exact absurd hbefore (by simpa using hnone)
        · dsimp only at hleft
          omega
      · exact hfew

theorem trail_start (o : DriveToolLoopOptions) (conversation : Conversation) :
    Trail o (LoopState.start o conversation).decisions [] where
  made := fun _ h => absurd h not_mem_nil
  grows := fun _ h => absurd h not_mem_nil
  ordered := List.Pairwise.nil
  discharged := fun _ h => .inl h
  counted := fun _ => Nat.le_refl _
  strays := Nat.le_refl _
  few := fun _ _ => by
    have hle : o.reserve ≤ o.budgets.maxToolCalls := by
      unfold DriveToolLoopOptions.reserve
      omega
    simpa using hle

theorem ledger_start (row : RequiredEvidenceRow) (conversation : Conversation) :
    Ledger o row (LoopState.start o conversation).decisions [] :=
  ⟨rfl, nodup_nil, nil_subset _, .inl⟩

theorem after_of_reserve {rounds : Nat} {call : ToolCallRecord} {message : String} :
    (decideCall o rounds d call).disposition = .reserve message → (decideCall o rounds d call).after =
      { d with requiredEvidenceRefusals := d.requiredEvidenceRefusals + 1 } := by
  unfold decideCall
  cases parseArguments o call.arguments with
  | error message => exact fun h => by cases h
  | ok args =>
    dsimp only
    split
    · exact fun h => by cases h
    · split
      · exact fun h => by cases h
      · split
        · split
          · exact fun _ => rfl
          · exact fun h => by cases h
        · exact fun h => by cases h

/-- A row that a call targets though it is inactive was released by the cap, with every other dependency row. -/
theorem Decisions.not_anyActiveShapeRow {target : RequiredEvidenceRow × Option TraceEvidenceSlot}
    (h : target ∈ d.targets o name args) (hinactive : d.rowActive o target.1 = false) :
    d.anyActiveShapeRow o = false := by
  obtain ⟨row, -, htarget⟩ := mem_filterMap.mp h
  have hrow := Decisions.fst_of_target? htarget
  subst hrow
  have hopen : d.discharged.contains target.1.id = false := by
    by_contra hdischarged
    rw [Decisions.target?, if_pos (by simpa using hdischarged)] at htarget
    cases htarget
  have hcap : o.attemptsCap ≤ d.windowEvidenceAttempts := by
    simp only [Decisions.rowActive, hopen, Bool.not_false, Bool.true_and, Bool.not_eq_false', Bool.and_eq_true,
      decide_eq_true_eq] at hinactive
    exact hinactive.2
  refine any_eq_false.mpr fun row _ => ?_
  simp only [Decisions.rowActive, hcap, decide_true, Bool.and_true, Bool.and_eq_true, Bool.not_eq_true', not_and]
  intro hshape _
  simp [hshape]

/-- A run keeps what the window promises exactly when no call of the window goes to released rows alone. -/
theorem enforced_iff (hreserve : 0 < o.reserve)
    (hids : ∀ row ∈ o.pendingRows, row.trace = true →
      (o.pendingRows.countP fun other => decide (other.id = row.id)) = 1)
    (conversation : Conversation) (turns : List Turn) :
    Enforced o (driveToolLoop o conversation turns) ↔
      ∀ p ∈ (driveToolLoop o conversation turns).decided, p.serves o = true := by
  have htrail := decided_invariant (I := Trail o) (fun _ _ rounds call h => trail_decideCall hreserve h rounds call)
    (trail_start o conversation) turns
  constructor
  · intro h p hp
    refine DecidedCall.serves_iff.mpr fun args hparsed hfresh hwithin hactive hwindow htargets => ?_
    by_contra hnone
    have hinactive : ∀ target ∈ p.before.targets o p.call.name args, p.before.rowActive o target.1 = false :=
      fun target htarget => by simpa using fun hrow => hnone ⟨target, htarget, hrow⟩
    obtain ⟨target, htarget⟩ := exists_mem_of_ne_nil _ htargets
    have hshape := Decisions.not_anyActiveShapeRow htarget (hinactive target htarget)
    have hargs : p.args? = some args := by
      have hadmits : Admits o p.rounds p.before p.call args :=
        ⟨hparsed, hfresh, hwithin, fun _ _ _ => .inl htargets⟩
      rw [DecidedCall.args?, htrail.made p hp, disposition_of_admits hadmits]
      rfl
    have hstray : p.isStray o = true := by
      simp only [DecidedCall.isStray, DecidedCall.advances, DecidedCall.isEvidence, hargs, hshape, Option.isSome_some,
        Option.any_some, Bool.true_and, Bool.and_false, Bool.not_false, Bool.and_true, Bool.not_eq_true']
      exact any_eq_false.mpr fun target htarget => by simp [hinactive target htarget]
    rcases h.strays p hp hstray with hnone | ⟨hrequests, hrounds⟩
    · exact absurd hactive (by simp [hnone])
    · simp only [Decisions.inWindow, Bool.or_eq_true, decide_eq_true_eq] at hwindow
      omega
  · intro hserves
    refine ⟨?_, ?_, ?_, htrail.discharged, ?_, ?_, ?_⟩
    · exact fun row => ⟨htrail.ordered.imp fun hgrows => hgrows.rowActive, fun p hp => (htrail.grows p hp).rowActive⟩
    · exact fun p hp => reserve_of_isStray hreserve (htrail.made p hp) (hserves p hp)
    · exact htrail.few hserves
    · intro row hrow htrace hdischarged hseeded
      have hledger := decided_invariant (I := Ledger o row)
        (fun _ _ rounds call h => ledger_decideCall hreserve htrace hrow (hids row hrow htrace) h rounds call)
        (ledger_start row conversation) turns
      rw [← hledger.credited]
      refine (perm_ext_iff_of_nodup hledger.nodup (nodup_traceRowSlots row)).mpr fun slot => ?_
      exact ⟨fun h => hledger.slots h, fun h => (hledger.discharged hdischarged).resolve_left hseeded h⟩
    · intro p hp message hmessage
      rw [htrail.made p hp] at hmessage ⊢
      exact after_of_reserve hmessage
    · intro hcap row hrow hobligation
      by_contra hactive
      have hactive : (driveToolLoop o conversation turns).decisions.rowActive o row = true := by simpa using hactive
      have hcounted := htrail.counted (any_eq_true.mpr ⟨row, hrow, hactive⟩)
      simp only [Decisions.rowActive, hobligation, Bool.true_and, Bool.and_eq_true, Bool.not_eq_true',
        decide_eq_false_iff_not] at hactive
      omega

/-! ## A released row -/

/-- One row about the words of a change and one about the publisher, with two of ten requests reserved. The two
rounds make the window open from the start. -/
def publisherOptions : DriveToolLoopOptions where
  apiFormat := "openai"
  budgets := {
    maxToolCalls := 10, maxRounds := 2, wallClockSec := 100, maxConversationTokens := 100000
    truncatedResultBytes := 1000, summarizeKeepNewest := 2 }
  reserveForRequiredEvidence := 2
  requiredEvidence := [
    { id := "words", tokens := ["alpha"] }, { id := "publisher", tokens := [], obligation := some .provenance }]

/-- The model fetches these addresses. -/
def fetchTurn (urls : List String) : Turn where
  response := .ok (.object [("choices", .array [.object [("message", .object [("tool_calls",
    .array (urls.map fun url => .object [("id", .string url), ("function", .object [("name", .string "web_fetch"),
      ("arguments", .string ("\x7b\x22url\x22:\x22" ++ url ++ "\x22\x7d"))])]))])]])])

def openingConversation : Conversation := ⟨"", [.user "Review the change."]⟩

instance serves_fetches : Fact (∀ p ∈ (driveToolLoop publisherOptions openingConversation
    [fetchTurn ["https://a.example/x", "https://a.example/y"]]).decided, p.serves publisherOptions = true) :=
  ⟨by decide +kernel⟩

/-- Two fetches that serve no row release the row about the publisher. -/
theorem enforced_iff_fetches : Enforced publisherOptions (driveToolLoop publisherOptions openingConversation
    [fetchTurn ["https://a.example/x", "https://a.example/y"]]) :=
  (enforced_iff (by decide) (by decide) _ _).mpr serves_fetches.out

instance strays_fetches : Fact (∃ p ∈ (driveToolLoop publisherOptions openingConversation
    [fetchTurn ["https://a.example/x", "https://a.example/y", "https://pypi.org/x"]]).decided,
      p.isStray publisherOptions = true ∧ p.before.hasActiveRow publisherOptions = true ∧
        (publisherOptions.budgets.maxRounds : Int) - (p.rounds - 1) ≤ publisherOptions.reserve) :=
  ⟨by decide +kernel⟩

/-- A third fetch serves that row only: it is run, and the row about the words is still open. -/
theorem released_row_served :
    ¬∀ (o : DriveToolLoopOptions) (conversation : Conversation) (turns : List Turn), 0 < o.reserve →
      Enforced o (driveToolLoop o conversation turns) := by
  intro h
  have henforced := h publisherOptions openingConversation
    [fetchTurn ["https://a.example/x", "https://a.example/y", "https://pypi.org/x"]] (by decide)
  obtain ⟨p, hp, hstray, hactive, hrounds⟩ := strays_fetches.out
  rcases henforced.strays p hp hstray with hnone | ⟨-, hleft⟩
  · exact absurd hactive (by simp [hnone])
  · omega

end

end PrReviewer.Tools
