import PrReviewer.Tools.Loop

/-!
# What a turn of the tool loop does

A turn leaves the loop as it is, leaves it, asks in vain, gets an answer without calls, or decides its calls.
-/

open Js List

namespace PrReviewer.Tools

open Model

/-! ## The log -/

/-- A decision of the log. -/
structure DecidedCall where
  rounds : Nat
  before : Decisions
  call : ToolCallRecord
  decided : Decided

/-- The arguments of a call that is run. -/
def DecidedCall.args? (p : DecidedCall) : Option (List (String × Value)) := p.decided.disposition.args?

namespace LoopEvent

def request? : LoopEvent → Option Conversation
  | .request conversation => some conversation
  | _ => none

def decided? : LoopEvent → Option DecidedCall
  | .decided rounds before call outcome => some ⟨rounds, before, call, outcome⟩
  | _ => none

def execute? : LoopEvent → Option ExecutedCall
  | .execute call => some call
  | _ => none

def round? : LoopEvent → Option (RoundRecord × Bool)
  | .round record progress => some (record, progress)
  | _ => none

end LoopEvent

namespace LoopState

variable (s : LoopState)

/-- The conversations that the model was asked with. -/
def requests : List Conversation := s.log.filterMap LoopEvent.request?

def decided : List DecidedCall := s.log.filterMap LoopEvent.decided?

def executions : List ExecutedCall := s.log.filterMap LoopEvent.execute?

def records : List (RoundRecord × Bool) := s.log.filterMap LoopEvent.round?

end LoopState

section

variable (o : DriveToolLoopOptions)

/-! ## Decisions -/

/-- Credits change what is discharged and which slots are credited, nothing else. -/
theorem Decisions.foldl_credit_eq (ts : List (RequiredEvidenceRow × Option TraceEvidenceSlot))
    (p : Decisions × Nat × Nat) :
    ∃ discharged traceCredited,
      (ts.foldl credit p).1 = { p.1 with discharged := discharged, traceCredited := traceCredited } := by
  induction ts generalizing p with
  | nil => exact ⟨p.1.discharged, p.1.traceCredited, rfl⟩
  | cons target ts ih =>
    obtain ⟨discharged, traceCredited, h⟩ := ih (credit p target)
    refine ⟨discharged, traceCredited, ?_⟩
    rw [foldl_cons, h]
    obtain ⟨d, rows, slots⟩ := p
    unfold credit
    dsimp only
    split
    · split <;> rfl
    · rfl

/-- The decision lets a call run that it finds within the reservation. -/
structure Admits (rounds : Nat) (d : Decisions) (call : ToolCallRecord) (args : List (String × Value)) :
    Prop where
  parsed : parseArguments o call.arguments = .ok args
  fresh : requestKey call.name args ∉ d.seenKeys
  within : d.callsExecuted < o.budgets.maxToolCalls
  advances : 0 < o.reserve → d.hasActiveRow o = true → d.inWindow o rounds = true →
    d.targets o call.name args ≠ [] ∨
      (dependencyEvidenceTools.contains call.name = true ∧ d.anyActiveShapeRow o = true)

/-- The rows are tracked, and one of them is active. -/
def Decisions.tracking (d : Decisions) : Bool := decide (0 < o.reserve) && d.hasActiveRow o

/-- The decision for a call that is run. -/
def admitted (rounds : Nat) (d : Decisions) (call : ToolCallRecord) (args : List (String × Value)) : Decided :=
  let credits := (if d.tracking o then d.targets o call.name args else []).foldl Decisions.credit (d, 0, 0)
  ⟨credits.1.execute call.name (requestKey call.name args) (d.tracking o && d.inWindow o rounds), .exec args,
    credits.2.1, credits.2.2⟩

/-- What a call that is run changes. -/
theorem after_admitted (rounds : Nat) (d : Decisions) (call : ToolCallRecord) (args : List (String × Value)) :
    ∃ discharged traceCredited, (admitted o rounds d call args).after = { d with
      callsExecuted := d.callsExecuted + 1
      seenKeys := d.seenKeys ++ [requestKey call.name args]
      discharged := discharged
      traceCredited := traceCredited
      evidenceAttempts := d.evidenceAttempts + if dependencyEvidenceTools.contains call.name then 1 else 0
      windowEvidenceAttempts := d.windowEvidenceAttempts +
        if dependencyEvidenceTools.contains call.name && (d.tracking o && d.inWindow o rounds) then 1 else 0 } := by
  obtain ⟨discharged, traceCredited, h⟩ := Decisions.foldl_credit_eq
    (if d.tracking o then d.targets o call.name args else []) (d, 0, 0)
  refine ⟨discharged, traceCredited, ?_⟩
  simp only [admitted, h, Decisions.execute]

/-- A call is not run, and all but the count of refusals is as it was, or it is run. -/
theorem decideCall_cases (rounds : Nat) (d : Decisions) (call : ToolCallRecord) :
    (∃ refusals disposition, disposition.args? = none ∧
      decideCall o rounds d call = ⟨{ d with requiredEvidenceRefusals := refusals }, disposition, 0, 0⟩) ∨
    ∃ args, Admits o rounds d call args ∧ decideCall o rounds d call = admitted o rounds d call args := by
  unfold decideCall
  cases hargs : parseArguments o call.arguments with
  | error message => exact .inl ⟨d.requiredEvidenceRefusals, _, rfl, rfl⟩
  | ok args =>
    dsimp only
    split
    · exact .inl ⟨d.requiredEvidenceRefusals, _, rfl, rfl⟩
    · next hseen =>
      have hfresh : requestKey call.name args ∉ d.seenKeys := by simpa using hseen
      split
      · exact .inl ⟨d.requiredEvidenceRefusals, _, rfl, rfl⟩
      · next hmax =>
        split
        · next htracking =>
          split
          · exact .inl ⟨_, _, rfl, rfl⟩
          · next hadvances =>
            refine .inr ⟨args, ⟨hargs, hfresh, Nat.lt_of_not_le hmax, fun _ _ hwindow => ?_⟩, ?_⟩
            · by_cases htargets : d.targets o call.name args = []
              · exact .inr (by simpa [hwindow, htargets] using hadvances)
              · exact .inl htargets
            · have htracks : d.tracking o = true := htracking
              simp [admitted, htracks]
        · next htracking =>
          have htracks : d.tracking o = false := by simpa [Decisions.tracking] using htracking
          refine .inr ⟨args, ⟨hargs, hfresh, Nat.lt_of_not_le hmax, fun hreserve hactive => ?_⟩, ?_⟩
          · exact absurd (by simp [hreserve, hactive]) htracking
          · simp [admitted, htracks]

variable {o} in
theorem disposition_of_admits {rounds : Nat} {d : Decisions} {call : ToolCallRecord} {args : List (String × Value)}
    (h : Admits o rounds d call args) : (decideCall o rounds d call).disposition = .exec args := by
  have hfresh : ¬d.seenKeys.contains (requestKey call.name args) = true := by simpa using h.fresh
  unfold decideCall
  rw [h.parsed]
  dsimp only
  rw [if_neg hfresh, if_neg (Nat.not_le_of_lt h.within)]
  split
  · next htracking =>
    simp only [Bool.and_eq_true, decide_eq_true_eq] at htracking
    split
    · next hrefused =>
      simp only [Bool.and_eq_true, Bool.not_eq_true', Bool.and_eq_false_iff, List.isEmpty_iff] at hrefused
      obtain ⟨⟨hwindow, htargets⟩, hevidence⟩ := hrefused
      rcases h.advances htracking.1 htracking.2 hwindow with hne | ⟨htool, hshape⟩
      · exact absurd htargets hne
      · simp only [htool, hshape, Bool.true_eq_false, or_self] at hevidence
    · rfl
  · rfl

@[simp] theorem length_decideCalls (rounds : Nat) (d : Decisions) (calls : List ToolCallRecord) :
    (decideCalls o rounds d calls).length = calls.length := by
  induction calls generalizing d with
  | nil => rfl
  | cons call calls ih => simp [decideCalls, ih]

/-- The plan goes through the calls in their order. -/
theorem map_decideCalls (rounds : Nat) (d : Decisions) (calls : List ToolCallRecord) :
    (decideCalls o rounds d calls).map (·.2.1) = calls := by
  induction calls generalizing d with
  | nil => rfl
  | cons call calls ih => simp [decideCalls, ih]

/-! ## The parts of a turn -/

/-- The conversation behind these results. -/
def Conversation.addResults (c : Conversation) (rs : List ToolResultEvent) : Conversation :=
  { c with events := c.events ++ rs.map .toolResult }

/-- The results of calls with these ids: one for each id that is not empty. -/
def Answers (rs : List ToolResultEvent) (ids : List String) : Prop := rs.map (·.callId) = ids.filter (· ≠ "")

theorem addToolResult_eq (c : Conversation) (callId : String) (result : Value) (isError : Bool) (maxBytes : Nat)
    (tool evidence : String) :
    ∃ rs, Answers rs [callId] ∧
      c.addToolResult callId result isError maxBytes tool evidence = Conversation.addResults c rs := by
  unfold Conversation.addToolResult
  by_cases hid : callId = ""
  · refine ⟨[], by simp [Answers, hid], ?_⟩
    rw [if_pos hid]
    simp [Conversation.addResults]
  · rw [if_neg hid]
    exact ⟨[_], by simp [Answers, hid], rfl⟩

/-- The answer of the executor of a run call, and the result in the conversation. -/
theorem applyResult_eq (t : Turn) (s : LoopState) (entry : (ToolCallRecord × Disposition) × Nat) :
    ∃ rs bytes, Answers rs [entry.1.1.id] ∧
      applyResult o t s entry = { s with
        executed := s.executed ++ (executedCall? t entry).toList
        conversation := Conversation.addResults s.conversation rs
        toolResultBytes := bytes } := by
  obtain ⟨⟨call, disposition⟩, i⟩ := entry
  have hrefusal (field text : String) : ∃ rs bytes, Answers rs [call.id] ∧
      applyRefusal s call field text = { s with
        executed := s.executed ++ []
        conversation := Conversation.addResults s.conversation rs
        toolResultBytes := bytes } := by
    obtain ⟨rs, hrs, heq⟩ := addToolResult_eq s.conversation call.id (.object [(field, .string text)]) true
      toolResultMaxBytes "" ""
    refine ⟨rs, s.toolResultBytes, hrs, ?_⟩
    unfold applyRefusal
    dsimp only
    rw [heq, append_nil]
  cases disposition with
  | error message => exact hrefusal "error" message
  | dup => exact hrefusal "note" duplicateNote
  | budget => exact hrefusal "error" budgetNote
  | reserve message => exact hrefusal "error" message
  | exec args =>
    unfold applyResult applyExecuted
    dsimp only
    obtain ⟨rs, hrs, heq⟩ := addToolResult_eq s.conversation call.id _ _ _ _ _
    exact ⟨rs, _, hrs, by rw [heq]; rfl⟩

theorem foldl_applyResult_eq (t : Turn) (entries : List ((ToolCallRecord × Disposition) × Nat)) (s : LoopState) :
    ∃ rs bytes, Answers rs (entries.map (·.1.1.id)) ∧
      entries.foldl (applyResult o t) s = { s with
        executed := s.executed ++ entries.filterMap (executedCall? t)
        conversation := Conversation.addResults s.conversation rs
        toolResultBytes := bytes } := by
  induction entries generalizing s with
  | nil => exact ⟨[], s.toolResultBytes, rfl, by simp [Conversation.addResults]⟩
  | cons entry entries ih =>
    obtain ⟨rs, bytes, hrs, heq⟩ := applyResult_eq o t s entry
    obtain ⟨rs', bytes', hrs', heq'⟩ := ih (applyResult o t s entry)
    refine ⟨rs ++ rs', bytes', ?_, ?_⟩
    · unfold Answers at hrs hrs' ⊢
      rw [map_append, hrs, hrs', ← filter_append]
      rfl
    · rw [foldl_cons, heq', heq]
      cases h : executedCall? t entry <;> simp [Conversation.addResults, h]

/-- The entries of a plan: each call with its disposition and its place. -/
def entriesOf (plan : List (Decisions × ToolCallRecord × Decided)) : List ((ToolCallRecord × Disposition) × Nat) :=
  (plan.map fun p => (p.2.1, p.2.2.disposition)).zipIdx

theorem map_entriesOf {α : Type} (f : ToolCallRecord × Disposition → α)
    (plan : List (Decisions × ToolCallRecord × Decided)) :
    (entriesOf plan).map (fun entry => f entry.1) = plan.map fun p => f (p.2.1, p.2.2.disposition) := by
  have hplaces := zipIdx_map_fst 0 (plan.map fun p => (p.2.1, p.2.2.disposition))
  calc (entriesOf plan).map (fun entry => f entry.1)
      = ((entriesOf plan).map Prod.fst).map f := by rw [map_map]; rfl
    _ = (plan.map fun p => (p.2.1, p.2.2.disposition)).map f := by rw [entriesOf, hplaces]
    _ = plan.map fun p => f (p.2.1, p.2.2.disposition) := by rw [map_map]; rfl

/-- The state `s'` behind the calls of a turn. -/
structure Ran (t : Turn) (s : LoopState) (calls : List ToolCallRecord) (s' : LoopState) : Prop where
  decisions : s'.decisions = decisionsAfter o s.rounds s.decisions calls
  executed : s'.executed =
    s.executed ++ (entriesOf (decideCalls o s.rounds s.decisions calls)).filterMap (executedCall? t)
  rounds : s'.rounds = s.rounds
  issued : s'.toolCallsIssued = s.toolCallsIssued
  conversation : ∃ rs, Answers rs (calls.map (·.id)) ∧ s'.conversation = Conversation.addResults s.conversation rs
  log : s'.log = s.log ++
    (decideCalls o s.rounds s.decisions calls).map (fun p => .decided s.rounds p.1 p.2.1 p.2.2) ++
    ((entriesOf (decideCalls o s.rounds s.decisions calls)).filterMap (executedCall? t)).map .execute ++
    [.round (roundRecord o s calls.length (decideCalls o s.rounds s.decisions calls) s'.decisions)
      (progressed (decideCalls o s.rounds s.decisions calls))]
  /-- One more round is allowed only at the ceiling, behind a round with progress, within the reservation. -/
  ceiling : (s'.roundCeiling = s.roundCeiling ∧ s'.extensionRounds = s.extensionRounds) ∨
    (s.roundCeiling ≤ s.rounds ∧ s.extensionRounds < o.reserve ∧
      progressed (decideCalls o s.rounds s.decisions calls) = true ∧
      s'.roundCeiling = s.roundCeiling + 1 ∧ s'.extensionRounds = s.extensionRounds + 1)

theorem ran_runCalls (t : Turn) (s : LoopState) (calls : List ToolCallRecord) :
    Ran o t s calls (runCalls o t s calls) := by
  obtain ⟨rs, bytes, hrs, heq⟩ := foldl_applyResult_eq o t
    (entriesOf (decideCalls o s.rounds s.decisions calls))
    { s with
      decisions := decisionsAfter o s.rounds s.decisions calls
      log := s.log ++ (decideCalls o s.rounds s.decisions calls).map (fun p => .decided s.rounds p.1 p.2.1 p.2.2) ++
        ((entriesOf (decideCalls o s.rounds s.decisions calls)).filterMap (executedCall? t)).map .execute }
  have hids : (entriesOf (decideCalls o s.rounds s.decisions calls)).map (·.1.1.id) = calls.map (·.id) := by
    conv => rhs; rw [← map_decideCalls o s.rounds s.decisions calls]
    rw [map_entriesOf (fun entry => entry.1.id), map_map]
    rfl
  rw [hids] at hrs
  unfold runCalls
  dsimp only
  rw [show (List.map (fun p => (p.2.1, p.2.2.disposition)) (decideCalls o s.rounds s.decisions calls)).zipIdx =
    entriesOf (decideCalls o s.rounds s.decisions calls) from rfl, heq]
  unfold extendCeiling
  dsimp only
  by_cases hextends : 0 < o.reserve ∧ s.extensionRounds < o.reserve ∧ s.roundCeiling ≤ s.rounds ∧
      (decisionsAfter o s.rounds s.decisions calls).hasActiveRow o = true ∧
      (decisionsAfter o s.rounds s.decisions calls).callsExecuted < o.budgets.maxToolCalls ∧
      progressed (decideCalls o s.rounds s.decisions calls) = true
  · rw [if_pos hextends]
    obtain ⟨-, hlt, hceiling, -, hwithin, hprogress⟩ := hextends
    rw [if_neg (Nat.not_le_of_lt hwithin)]
    exact ⟨rfl, rfl, rfl, rfl, ⟨rs, hrs, rfl⟩, rfl, .inr ⟨hceiling, hlt, hprogress, rfl, rfl⟩⟩
  · rw [if_neg hextends]
    split <;> exact ⟨rfl, rfl, rfl, rfl, ⟨rs, hrs, rfl⟩, rfl, .inl ⟨rfl, rfl⟩⟩

/-! ## A turn -/

theorem rewrites_foldResults (t : Turn) (s : LoopState) :
    Conversation.Rewrites s.conversation (foldResults o t s).2 := by
  unfold foldResults
  split
  · split
    · next h => exact Conversation.rewrites_summarizeOldestToolResults h
    · exact .refl _
  · exact .refl _

/-- Compaction rewrites results. -/
theorem compact_eq (t : Turn) (s : LoopState) :
    ∃ conversation peak summarize truncate, Conversation.Rewrites s.conversation conversation ∧
      compact o t s = { s with
        conversation := conversation
        peakConversationTokens := peak
        compactionSummarize := summarize
        compactionTruncate := truncate } := by
  have hfolded := rewrites_foldResults o t { s with
    peakConversationTokens := max s.peakConversationTokens s.conversation.approxTokens }
  unfold compact
  dsimp only
  split
  · exact ⟨s.conversation, _, _, _, .refl _, rfl⟩
  · split
    · exact ⟨_, _, _, _, hfolded.trans (Conversation.rewrites_truncateOldestToolResults _ _), rfl⟩
    · exact ⟨_, _, _, _, hfolded, rfl⟩

/-- The state `a` at a request. -/
structure Asked (s a : LoopState) : Prop where
  decisions : a.decisions = s.decisions
  executed : a.executed = s.executed
  rounds : a.rounds = s.rounds
  issued : a.toolCallsIssued = s.toolCallsIssued
  roundCeiling : a.roundCeiling = s.roundCeiling
  extensionRounds : a.extensionRounds = s.extensionRounds
  conversation : ∃ c, Conversation.Rewrites s.conversation c ∧ a.conversation = c.addTurnNote (turnNote o s)
  log : a.log = s.log ++ [.request a.conversation]

theorem asked_sendRequest (t : Turn) (s : LoopState) : Asked o s (sendRequest o (compact o t s)) := by
  obtain ⟨conversation, peak, summarize, truncate, hrewrites, heq⟩ := compact_eq o t s
  rw [heq]
  exact ⟨rfl, rfl, rfl, rfl, rfl, rfl, ⟨conversation, hrewrites, rfl⟩, rfl⟩

/-- The state `s'` behind a request that failed or was answered without calls: the loop is left. -/
structure Quieted (a s' : LoopState) : Prop where
  decisions : s'.decisions = a.decisions
  executed : s'.executed = a.executed
  issued : s'.toolCallsIssued = a.toolCallsIssued
  roundCeiling : s'.roundCeiling = a.roundCeiling
  extensionRounds : s'.extensionRounds = a.extensionRounds
  conversation : s'.conversation = a.conversation
  rounds : s'.rounds ≤ a.rounds + 1
  stopped : s'.stopReason.isSome = true
  log : ∃ record, record.requested = 0 ∧ record.executed = 0 ∧ record.refused = 0 ∧ record.deduplicated = 0 ∧
    s'.log = a.log ++ [.round record false]

/-- The state in which the calls of an answer are decided. -/
def answered (a : LoopState) (calls : List ToolCallRecord) (text : String) : LoopState :=
  { a with
    rounds := a.rounds + 1
    conversation :=
      (if text ≠ "" then a.conversation.addAssistantText text else a.conversation).addAssistantToolCalls calls
    toolCallsIssued := a.toolCallsIssued + calls.length }

theorem respond_cases (t : Turn) (a : LoopState) :
    Quieted a (respond o t a) ∨
      ∃ response calls text, t.response = .ok response ∧ extractToolCalls response o.apiFormat = (calls, text) ∧
        calls ≠ [] ∧ Ran o t (answered a calls text) calls (respond o t a) := by
  unfold respond
  cases hresponse : t.response with
  | error e => exact .inl ⟨rfl, rfl, rfl, rfl, rfl, rfl, Nat.le_succ _, rfl, _, rfl, rfl, rfl, rfl, rfl⟩
  | ok response =>
    dsimp only
    split
    · exact .inl ⟨rfl, rfl, rfl, rfl, rfl, rfl, Nat.le_refl _, rfl, _, rfl, rfl, rfl, rfl, rfl⟩
    · next hcalls => exact .inr ⟨response, _, _, rfl, rfl, hcalls, ran_runCalls o t _ _⟩

/-- A turn leaves the loop, or the model is asked and the turn goes on from there. -/
theorem loopTurn_cases (s : LoopState) (t : Turn) :
    (∃ stopReason, loopTurn o s t = { s with stopReason := stopReason } ∧ stopReason.isSome = true) ∨
      (s.stopReason = none ∧ s.rounds < s.roundCeiling ∧
        ∃ a, Asked o s a ∧ loopTurn o s t = respond o t a) := by
  unfold loopTurn
  split
  · next h => exact .inl ⟨s.stopReason, rfl, h⟩
  · next hrunning =>
    split
    · exact .inl ⟨_, rfl, rfl⟩
    · next hceiling =>
      cases wallClockStop o t with
      | some reason => exact .inl ⟨_, rfl, rfl⟩
      | none =>
        exact .inr ⟨by simpa using hrunning, Nat.lt_of_not_le hceiling, _, asked_sendRequest o t s, rfl⟩

/-! ## What the log gains -/

/-- The decisions of a plan. -/
def decidedOf (rounds : Nat) (plan : List (Decisions × ToolCallRecord × Decided)) : List DecidedCall :=
  plan.map fun p => ⟨rounds, p.1, p.2.1, p.2.2⟩

theorem map_call_decidedOf (n rounds : Nat) (d : Decisions) (calls : List ToolCallRecord) :
    (decidedOf n (decideCalls o rounds d calls)).map (·.call) = calls := by
  rw [decidedOf, map_map]
  exact map_decideCalls o rounds d calls

variable {o} {s a s' : LoopState}

theorem Asked.log_projections (h : Asked o s a) :
    a.requests = s.requests ++ [a.conversation] ∧ a.decided = s.decided ∧ a.executions = s.executions ∧
      a.records = s.records := by
  simp [LoopState.requests, LoopState.decided, LoopState.executions, LoopState.records, h.log,
    LoopEvent.request?, LoopEvent.decided?, LoopEvent.execute?, LoopEvent.round?]

theorem Quieted.log_projections (h : Quieted a s') :
    s'.requests = a.requests ∧ s'.decided = a.decided ∧ s'.executions = a.executions ∧
      ∃ record, record.requested = 0 ∧ record.executed = 0 ∧ record.refused = 0 ∧ record.deduplicated = 0 ∧
        s'.records = a.records ++ [(record, false)] := by
  obtain ⟨record, h₁, h₂, h₃, h₄, hlog⟩ := h.log
  refine ⟨?_, ?_, ?_, record, h₁, h₂, h₃, h₄, ?_⟩ <;>
  simp [LoopState.requests, LoopState.decided, LoopState.executions, LoopState.records, hlog,
    LoopEvent.request?, LoopEvent.decided?, LoopEvent.execute?, LoopEvent.round?]

theorem Ran.log_projections {t : Turn} {calls : List ToolCallRecord} (h : Ran o t a calls s') :
    s'.requests = a.requests ∧
      s'.decided = a.decided ++ decidedOf a.rounds (decideCalls o a.rounds a.decisions calls) ∧
      s'.executions = a.executions ++
        (entriesOf (decideCalls o a.rounds a.decisions calls)).filterMap (executedCall? t) ∧
      s'.records = a.records ++
        [(roundRecord o a calls.length (decideCalls o a.rounds a.decisions calls) s'.decisions,
          progressed (decideCalls o a.rounds a.decisions calls))] := by
  simp [LoopState.requests, LoopState.decided, LoopState.executions, LoopState.records, h.log,
    LoopEvent.request?, LoopEvent.decided?, LoopEvent.execute?, LoopEvent.round?, filterMap_map,
    Function.comp_def, decidedOf]

/-! ## Runs -/

/-- What each decision keeps of the decisions and their log, the calls of a round keep. -/
theorem decisionsAfter_invariant {I : Decisions → List DecidedCall → Prop}
    (hstep : ∀ d log rounds call, I d log →
      I (decideCall o rounds d call).after (log ++ [⟨rounds, d, call, decideCall o rounds d call⟩]))
    (rounds : Nat) (calls : List ToolCallRecord) {d : Decisions} {log : List DecidedCall} (h : I d log) :
    I (decisionsAfter o rounds d calls) (log ++ decidedOf rounds (decideCalls o rounds d calls)) := by
  induction calls generalizing d log with
  | nil => simpa [decisionsAfter, decideCalls, decidedOf] using h
  | cons call calls ih =>
    have hnext := ih (hstep d log rounds call h)
    rw [append_assoc] at hnext
    exact hnext

/-- What each decision keeps of the decisions and their log, every run keeps. -/
theorem decided_invariant {I : Decisions → List DecidedCall → Prop}
    (hstep : ∀ d log rounds call, I d log →
      I (decideCall o rounds d call).after (log ++ [⟨rounds, d, call, decideCall o rounds d call⟩]))
    {conversation : Conversation} (hstart : I (LoopState.start o conversation).decisions [])
    (turns : List Turn) :
    I (driveToolLoop o conversation turns).decisions (driveToolLoop o conversation turns).decided := by
  refine Machine.invariant (I := fun s : LoopState => I s.decisions s.decided) (fun s t h => ?_) hstart turns
  obtain ⟨stopReason, heq, -⟩ | ⟨-, -, a, ha, heq⟩ := loopTurn_cases o s t
  · rw [heq]
    exact h
  · rw [heq]
    have hasked : I a.decisions a.decided := by
      rw [ha.decisions, ha.log_projections.2.1]
      exact h
    obtain hquiet | ⟨response, calls, text, -, -, -, hran⟩ := respond_cases o t a
    · rw [hquiet.decisions, hquiet.log_projections.2.1]
      exact hasked
    · rw [hran.decisions, hran.log_projections.2.1]
      exact decisionsAfter_invariant hstep _ calls hasked

end

end PrReviewer.Tools
