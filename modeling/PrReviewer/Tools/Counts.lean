import PrReviewer.Tools.Turns

/-!
# The budgets of the tool loop

What the loop spends and what it reports.

- `Paced` ties the requests to the rounds and the ceiling: the ceiling rises only behind a round with progress,
  at most as often as the reservation is large.
- `Tallied` ties the records to the log: each call of a round was run, refused or a duplicate.
-/

open Js List

namespace PrReviewer.Tools

open Model

/-! ## Calls of a conversation -/

namespace Conversation

/-- The calls of the model, in their order. -/
def calls (c : Conversation) : List ToolCallRecord :=
  c.events.flatMap fun
    | .assistantToolCalls calls => calls
    | _ => []

theorem calls_add (c : Conversation) (e : ConversationEvent) :
    calls (c.add e) = calls c ++ calls ⟨"", [e]⟩ := by
  simp [calls, Conversation.add]

theorem calls_addResults (c : Conversation) (rs : List ToolResultEvent) : calls (addResults c rs) = calls c := by
  simp [calls, addResults, flatMap_map]

theorem calls_addTurnNote (c : Conversation) (note : String) : calls (c.addTurnNote note) = calls c := by
  unfold Conversation.addTurnNote
  split
  · rfl
  · rw [calls_add]
    simp [calls]

theorem calls_addAssistantText (c : Conversation) (text : String) : calls (c.addAssistantText text) = calls c := by
  rw [Conversation.addAssistantText, calls_add]
  simp [calls]

theorem calls_addAssistantToolCalls (c : Conversation) (issued : List ToolCallRecord) :
    calls (c.addAssistantToolCalls issued) = calls c ++ issued := by
  unfold Conversation.addAssistantToolCalls
  split
  · next h => simp [h]
  · rw [calls_add]
    simp [calls]

theorem calls_of_rewrites {c c' : Conversation} (h : Conversation.Rewrites c c') : calls c' = calls c := by
  obtain ⟨f, -, rfl⟩ := h
  unfold calls Conversation.rewriteResults
  dsimp only
  rw [mapIdx_eq_zipIdx_map, flatMap_map]
  conv => rhs; rw [← zipIdx_map_fst 0 c.events, flatMap_map]
  congr 1
  funext ⟨e, i⟩
  cases e <;> rfl

end Conversation

section

variable (o : DriveToolLoopOptions)

/-! ## The calls that were run -/

/-- The tool and the arguments of each call that is run. -/
def runsOf (decided : List DecidedCall) : List (String × List (String × Value)) :=
  decided.filterMap fun p => p.args?.map fun args => (p.call.name, args)

/-- The decisions behind these calls. -/
structure Follows (d : Decisions) (decided : List DecidedCall) : Prop where
  keys : d.seenKeys = (runsOf decided).map fun run => requestKey run.1 run.2
  nodup : d.seenKeys.Nodup
  count : d.callsExecuted = (runsOf decided).length
  within : d.callsExecuted ≤ o.budgets.maxToolCalls
  keyed : ∀ run ∈ runsOf decided, Keyed (.object run.2)

variable {o}

theorem keyed_of_parseArguments {arguments : String} {args : List (String × Value)}
    (h : parseArguments o arguments = .ok args) : Keyed (.object args) := by
  unfold parseArguments at h
  split at h
  · cases h
    exact ⟨nodup_nil, trivial⟩
  · split at h
    · cases h
    · next hparse =>
      cases h
      exact keyed_parse hparse
    · cases h

theorem follows_decideCall {d : Decisions} {decided : List DecidedCall} (h : Follows o d decided)
    (rounds : Nat) (call : ToolCallRecord) :
    Follows o (decideCall o rounds d call).after
      (decided ++ [⟨rounds, d, call, decideCall o rounds d call⟩]) := by
  obtain ⟨refusals, disposition, hargs, heq⟩ | ⟨args, hadmits, heq⟩ := decideCall_cases o rounds d call
  · have hruns : runsOf (decided ++ [⟨rounds, d, call, decideCall o rounds d call⟩]) = runsOf decided := by
      simp [runsOf, DecidedCall.args?, heq, hargs]
    rw [heq] at hruns ⊢
    exact ⟨hruns ▸ h.keys, h.nodup, hruns ▸ h.count, h.within, hruns ▸ h.keyed⟩
  · have hruns : runsOf (decided ++ [⟨rounds, d, call, decideCall o rounds d call⟩]) =
        runsOf decided ++ [(call.name, args)] := by
      simp [runsOf, DecidedCall.args?, heq, admitted, Disposition.args?]
    obtain ⟨discharged, traceCredited, hafter⟩ := after_admitted o rounds d call args
    have hkeys : (admitted o rounds d call args).after.seenKeys = d.seenKeys ++ [requestKey call.name args] := by
      rw [hafter]
    have hcount : (admitted o rounds d call args).after.callsExecuted = d.callsExecuted + 1 := by
      rw [hafter]
    rw [heq] at hruns ⊢
    refine ⟨?_, ?_, ?_, ?_, ?_⟩
    · rw [hkeys, hruns, map_append, h.keys]
      rfl
    · rw [hkeys, nodup_append_comm]
      exact nodup_cons.mpr ⟨hadmits.fresh, h.nodup⟩
    · rw [hcount, hruns, length_append, h.count]
      rfl
    · rw [hcount]
      exact hadmits.within
    · rw [hruns]
      intro run hrun
      rcases mem_append.mp hrun with hrun | hrun
      · exact h.keyed run hrun
      · rw [mem_singleton.mp hrun]
        exact keyed_of_parseArguments hadmits.parsed

/-- The executor is called for the calls of a plan that are run, in the order of the plan. -/
theorem executedCalls_entriesOf (t : Turn) (rounds : Nat) (plan : List (Decisions × ToolCallRecord × Decided)) :
    ((entriesOf plan).filterMap (executedCall? t)).map (fun e => (e.tool, e.args)) =
      runsOf (decidedOf rounds plan) := by
  have hplaces := zipIdx_map_fst 0 (plan.map fun p => (p.2.1, p.2.2.disposition))
  calc ((entriesOf plan).filterMap (executedCall? t)).map (fun e => (e.tool, e.args))
      = (entriesOf plan).filterMap
          ((fun q : ToolCallRecord × Disposition => q.2.args?.map fun args => (q.1.name, args)) ∘ Prod.fst) := by
        rw [map_filterMap]
        congr 1
        funext entry
        simp only [executedCall?, Function.comp, Option.map_map]
        rfl
    _ = runsOf (decidedOf rounds plan) := by
        rw [← filterMap_map, entriesOf, hplaces, runsOf, decidedOf, filterMap_map, filterMap_map]
        rfl

/-- Each call of a plan is counted once. -/
theorem countP_kinds (plan : List (Decisions × ToolCallRecord × Decided)) :
    plan.length = (plan.countP fun p => p.2.2.disposition.kind = .executed) +
      (plan.countP fun p => p.2.2.disposition.kind = .refused) +
      plan.countP fun p => p.2.2.disposition.kind = .deduplicated := by
  induction plan with
  | nil => rfl
  | cons p plan ih =>
    simp only [countP_cons, length_cons]
    cases p.2.2.disposition.kind <;> simp <;> omega

/-- The calls counted as executed are those that are run. -/
theorem countP_executed (rounds : Nat) (plan : List (Decisions × ToolCallRecord × Decided)) :
    (plan.countP fun p => p.2.2.disposition.kind = .executed) = (runsOf (decidedOf rounds plan)).length := by
  rw [runsOf, length_filterMap_eq_countP, decidedOf, countP_map]
  congr 1
  funext p
  cases h : p.2.2.disposition <;> simp [h, DecidedCall.args?, Disposition.kind, Disposition.args?]

/-! ## Requests -/

variable (o)

structure Paced (s : LoopState) : Prop where
  ceiling : s.roundCeiling = o.budgets.maxRounds + s.extensionRounds
  extensions : s.extensionRounds ≤ o.reserve
  rounds : s.rounds ≤ s.roundCeiling
  asked : s.requests.length ≤ s.roundCeiling
  running : s.stopReason = none → s.requests.length ≤ s.rounds
  extended : 0 < s.extensionRounds → ∃ record, (record, true) ∈ s.records ∧ record.round = o.budgets.maxRounds

/-! ## Records -/

structure Tallied (c : Conversation) (s : LoopState) : Prop where
  balanced : ∀ p ∈ s.records, p.1.requested = p.1.executed + p.1.refused + p.1.deduplicated
  issued : s.toolCallsIssued = (s.records.map (·.1.requested)).sum
  counted : s.executions.length = (s.records.map (·.1.executed)).sum
  runs : s.executions.map (fun e => (e.tool, e.args)) = runsOf s.decided
  executed : s.executed = s.executions
  calls : Conversation.calls s.conversation = Conversation.calls c ++ s.decided.map (·.call)

variable {o} {c : Conversation} {s a s' : LoopState}

theorem paced_loopTurn (h : Paced o s) (t : Turn) : Paced o (loopTurn o s t) := by
  obtain ⟨stopReason, heq, hstop⟩ | ⟨hrunning, hceiling, a, ha, heq⟩ := loopTurn_cases o s t
  · rw [heq]
    refine ⟨h.ceiling, h.extensions, h.rounds, h.asked, fun hnone => ?_, h.extended⟩
    cases show stopReason = none from hnone
    cases hstop
  · obtain ⟨hrequests, -, -, hrecords⟩ := ha.log_projections
    have hasked : a.requests.length ≤ s.rounds + 1 := by
      have := h.running hrunning
      simp [hrequests]
      omega
    have hrounds := ha.rounds
    have hroundCeiling := ha.roundCeiling
    have hextensions := ha.extensionRounds
    have hold := h.ceiling
    have hreserve := h.extensions
    rw [heq]
    obtain hquiet | ⟨response, calls, text, -, -, -, hran⟩ := respond_cases o t a
    · obtain ⟨hrequests', -, -, record, -, -, -, -, hrecords'⟩ := hquiet.log_projections
      refine ⟨?_, ?_, ?_, ?_, fun hnone => ?_, fun hpos => ?_⟩
      · rw [hquiet.roundCeiling, hquiet.extensionRounds]
        omega
      · rw [hquiet.extensionRounds]
        omega
      · rw [hquiet.roundCeiling]
        have := hquiet.rounds
        omega
      · rw [hquiet.roundCeiling, hrequests']
        omega
      · exact absurd hquiet.stopped (by simp [hnone])
      · obtain ⟨record', hrecord', hround⟩ := h.extended (by rw [hquiet.extensionRounds] at hpos; omega)
        exact ⟨record', by simp [hrecords', hrecords, hrecord'], hround⟩
    · obtain ⟨hrequests', -, -, hrecords'⟩ := hran.log_projections
      have hlen : (respond o t a).requests.length = a.requests.length := congrArg List.length hrequests'
      have hrounds' : (respond o t a).rounds = a.rounds + 1 := hran.rounds
      have hbehind : (answered a calls text).rounds = a.rounds + 1 := rfl
      have hceiling' := hran.ceiling
      change ((respond o t a).roundCeiling = a.roundCeiling ∧ (respond o t a).extensionRounds = a.extensionRounds) ∨
        (a.roundCeiling ≤ a.rounds + 1 ∧ a.extensionRounds < o.reserve ∧
          progressed (decideCalls o (a.rounds + 1) a.decisions calls) = true ∧
          (respond o t a).roundCeiling = a.roundCeiling + 1 ∧
          (respond o t a).extensionRounds = a.extensionRounds + 1) at hceiling'
      refine ⟨by omega, by omega, by omega, by omega, fun _ => by omega, fun hpos => ?_⟩
      by_cases hbefore : 0 < s.extensionRounds
      · obtain ⟨record', hrecord', hround⟩ := h.extended hbefore
        refine ⟨record', ?_, hround⟩
        rw [hrecords']
        exact mem_append_left _ (hrecords ▸ hrecord' : (record', true) ∈ a.records)
      · -- The first extension: this round is the one at the ceiling.
        obtain ⟨-, hsame⟩ | ⟨hat, -, hprogress, -, -⟩ := hceiling'
        · omega
        · refine ⟨roundRecord o (answered a calls text) calls.length
            (decideCalls o (a.rounds + 1) a.decisions calls) (respond o t a).decisions, ?_, ?_⟩
          · rw [hrecords']
            refine mem_append_right _ (mem_singleton.mpr ?_)
            exact congrArg (Prod.mk _) hprogress.symm
          · change a.rounds + 1 = o.budgets.maxRounds
            omega

theorem tallied_loopTurn (h : Tallied c s) (t : Turn) : Tallied c (loopTurn o s t) := by
  obtain ⟨stopReason, heq, -⟩ | ⟨-, -, a, ha, heq⟩ := loopTurn_cases o s t
  · rw [heq]
    exact ⟨h.balanced, h.issued, h.counted, h.runs, h.executed, h.calls⟩
  · obtain ⟨-, hdecided, hexecutions, hrecords⟩ := ha.log_projections
    have hcalls : Conversation.calls a.conversation = Conversation.calls c ++ s.decided.map (·.call) := by
      obtain ⟨rewritten, hrewrites, hconversation⟩ := ha.conversation
      rw [hconversation, Conversation.calls_addTurnNote, Conversation.calls_of_rewrites hrewrites, h.calls]
    rw [heq]
    obtain hquiet | ⟨response, calls, text, -, -, -, hran⟩ := respond_cases o t a
    · obtain ⟨-, hdecided', hexecutions', record, h₁, h₂, h₃, h₄, hrecords'⟩ := hquiet.log_projections
      rw [hdecided] at hdecided'
      rw [hexecutions] at hexecutions'
      rw [hrecords] at hrecords'
      refine ⟨?_, ?_, ?_, ?_, ?_, ?_⟩
      · rw [hrecords', forall_mem_append]
        exact ⟨h.balanced, by simp [h₁, h₂, h₃, h₄]⟩
      · rw [hquiet.issued, ha.issued, h.issued, hrecords']
        simp [h₁]
      · rw [hexecutions', h.counted, hrecords']
        simp [h₂]
      · rw [hexecutions', hdecided', h.runs]
      · rw [hquiet.executed, ha.executed, hexecutions', h.executed]
      · rw [hquiet.conversation, hcalls, hdecided']
    · obtain ⟨-, hdecided', hexecutions', hrecords'⟩ := hran.log_projections
      change _ = a.decided ++ _ at hdecided'
      change _ = a.executions ++ _ at hexecutions'
      change _ = a.records ++ _ at hrecords'
      rw [hdecided] at hdecided'
      rw [hexecutions] at hexecutions'
      rw [hrecords] at hrecords'
      have hplan := length_decideCalls o (answered a calls text).rounds (answered a calls text).decisions calls
      have hruns := executedCalls_entriesOf t (answered a calls text).rounds
        (decideCalls o (answered a calls text).rounds (answered a calls text).decisions calls)
      refine ⟨?_, ?_, ?_, ?_, ?_, ?_⟩
      · rw [hrecords', forall_mem_append]
        refine ⟨h.balanced, fun p hp => ?_⟩
        rw [mem_singleton.mp hp]
        exact hplan.symm.trans (countP_kinds _)
      · rw [hran.issued, hrecords', map_append, sum_append, ← h.issued, ← ha.issued]
        rfl
      · rw [hexecutions', length_append, h.counted, hrecords', map_append, sum_append]
        congr 1
        calc _ = (((entriesOf _).filterMap (executedCall? t)).map fun e => (e.tool, e.args)).length :=
              (length_map _).symm
          _ = _ := by rw [hruns, ← countP_executed]; rfl
      · rw [hexecutions', map_append, h.runs, hruns, hdecided']
        simp [runsOf]
      · rw [hran.executed, hexecutions', ← h.executed, ← ha.executed]
        rfl
      · obtain ⟨rs, -, hconversation⟩ := hran.conversation
        rw [hconversation, Conversation.calls_addResults, hdecided', map_append, map_call_decidedOf,
          ← append_assoc, ← hcalls]
        change Conversation.calls (Conversation.addAssistantToolCalls _ calls) = _
        rw [Conversation.calls_addAssistantToolCalls]
        congr 1
        split
        · exact Conversation.calls_addAssistantText _ _
        · rfl

/-! ## Runs -/

/-- What the loop has spent and what it reports, at the end of a run. -/
structure Accounted (o : DriveToolLoopOptions) (c : Conversation) (s : LoopState) : Prop where
  /-- The executor is called at most `maxToolCalls` times. -/
  executions : s.executions.length ≤ o.budgets.maxToolCalls
  /-- It is never called twice with one tool and the same argument object. -/
  distinct : s.executions.Pairwise fun e e' => ¬(e.tool = e'.tool ∧ Same (.object e.args) (.object e'.args))
  requests : s.requests.length ≤ o.budgets.maxRounds + o.reserve
  /-- The ceiling is kept unless the round at it discharged a row or credited a slot. -/
  requestsWithoutProgress :
    (∀ p ∈ s.records, p.1.round = o.budgets.maxRounds → p.2 = false) → s.requests.length ≤ o.budgets.maxRounds
  balanced : ∀ p ∈ s.records, p.1.requested = p.1.executed + p.1.refused + p.1.deduplicated
  executed : s.executed.length = (s.records.map (·.1.executed)).sum
  toolCallsIssued : s.toolCallsIssued = (s.records.map (·.1.requested)).sum
  requestsRemaining : s.requestsRemaining o + s.executed.length = o.budgets.maxToolCalls
  /-- The results are those of the executor, in the order in which the model issued the calls. -/
  results : s.executed = s.executions
  order : s.executed.map (fun e => (e.tool, e.args)) = runsOf s.decided
  issued : Conversation.calls s.conversation = Conversation.calls c ++ s.decided.map (·.call)

theorem paced_start (o : DriveToolLoopOptions) (c : Conversation) : Paced o (.start o c) :=
  ⟨rfl, Nat.zero_le _, Nat.zero_le _, Nat.zero_le _, fun _ => Nat.le_refl _, fun h => absurd h (Nat.lt_irrefl 0)⟩

theorem tallied_start (o : DriveToolLoopOptions) (c : Conversation) : Tallied c (.start o c) where
  balanced := fun _ h => absurd h not_mem_nil
  issued := rfl
  counted := rfl
  runs := rfl
  executed := rfl
  calls := (append_nil _).symm

theorem follows_start (o : DriveToolLoopOptions) (c : Conversation) :
    Follows o (LoopState.start o c).decisions [] :=
  ⟨rfl, nodup_nil, rfl, Nat.zero_le _, fun _ h => absurd h not_mem_nil⟩

theorem accounted_of (hpaced : Paced o s) (htallied : Tallied c s) (hfollows : Follows o s.decisions s.decided) :
    Accounted o c s := by
  have hlength : s.executions.length = (runsOf s.decided).length := by
    rw [← htallied.runs, length_map]
  have hcount := hfollows.count
  have hwithin := hfollows.within
  refine ⟨by omega, ?_, ?_, fun hquiet => ?_, htallied.balanced, ?_, htallied.issued, ?_, htallied.executed, ?_,
    htallied.calls⟩
  · -- The keys are all different, and the same arguments have one key.
    have hnodup := hfollows.nodup
    rw [hfollows.keys, ← htallied.runs, map_map, nodup_iff_pairwise_ne, pairwise_map] at hnodup
    refine hnodup.imp_of_mem fun {e e'} he he' hne hsame => hne ?_
    have hkeyed : ∀ x ∈ s.executions, Keyed (.object x.args) := fun x hx =>
      hfollows.keyed (x.tool, x.args) (htallied.runs ▸ mem_map_of_mem hx)
    simp only [Function.comp, requestKey, hsame.1,
      pyDumpsCompactSortedAscii_congr hsame.2 (hkeyed e he) (hkeyed e' he')]
  · have := hpaced.asked
    have := hpaced.ceiling
    have := hpaced.extensions
    omega
  · have hextensions : s.extensionRounds = 0 := by
      by_contra hne
      obtain ⟨record, hrecord, hround⟩ := hpaced.extended (Nat.pos_of_ne_zero hne)
      exact absurd (hquiet _ hrecord hround) (by simp)
    have := hpaced.asked
    have := hpaced.ceiling
    omega
  · rw [htallied.executed, htallied.counted]
  · rw [htallied.executed, LoopState.requestsRemaining]
    omega
  · rw [htallied.executed, htallied.runs]

/-- In every run the loop stays within its budgets and accounts for every call. -/
theorem driveToolLoop_accounts (o : DriveToolLoopOptions) (conversation : Conversation) (turns : List Turn) :
    Accounted o conversation (driveToolLoop o conversation turns) := by
  obtain ⟨hpaced, htallied⟩ := Machine.invariant (I := fun s => Paced o s ∧ Tallied conversation s)
    (fun _ t h => ⟨paced_loopTurn h.1 t, tallied_loopTurn h.2 t⟩)
    ⟨paced_start o conversation, tallied_start o conversation⟩ turns
  have hfollows := decided_invariant (I := Follows o) (fun _ _ rounds call h => follows_decideCall h rounds call)
    (follows_start o conversation) turns
  exact accounted_of hpaced htallied hfollows

/-- A turn that does not leave the loop is a round. -/
theorem rounds_loopTurn {t : Turn} (h : (loopTurn o s t).stopReason = none) :
    s.stopReason = none ∧ (loopTurn o s t).rounds = s.rounds + 1 := by
  obtain ⟨stopReason, heq, hstop⟩ | ⟨hrunning, -, a, ha, heq⟩ := loopTurn_cases o s t
  · rw [heq] at h
    cases show stopReason = none from h
    cases hstop
  · refine ⟨hrunning, ?_⟩
    rw [heq] at h ⊢
    obtain hquiet | ⟨response, calls, text, -, -, -, hran⟩ := respond_cases o t a
    · exact absurd hquiet.stopped (by simp [h])
    · rw [hran.rounds, ← ha.rounds]
      rfl

theorem rounds_run {s : LoopState} {turns : List Turn}
    (h : (Machine.run (loopTurn o) s turns).stopReason = none) :
    s.stopReason = none ∧ (Machine.run (loopTurn o) s turns).rounds = s.rounds + turns.length := by
  induction turns generalizing s with
  | nil => exact ⟨h, rfl⟩
  | cons t turns ih =>
    obtain ⟨hnext, hrounds⟩ := ih h
    obtain ⟨hrunning, hround⟩ := rounds_loopTurn hnext
    refine ⟨hrunning, ?_⟩
    rw [Machine.run_cons, hrounds, hround, length_cons]
    omega

end

end PrReviewer.Tools
