import PrReviewer.Js.Machine
import PrReviewer.Model.Conversation
import PrReviewer.Tools.Evidence

/-!
# The tool loop

`driveToolLoop` of `src/tools/loop.ts`. One turn of the loop takes what its surroundings answer in it (`Turn`):
the clock, the summarizer, the model, and the executor for each call it runs.

- `LoopState.log` is what the run has done, in order: requests to the model, decisions on calls, calls of the
  executor and round records.
- Measurements (token usage, transport timings, elapsed times) are left out.
- An option that the source rounds down (`Math.floor`) is an integer.
- `parseMessage` is the message with which `JSON.parse` refuses a text, `provenanceAttributes` the rendering of
  the provenance of a result.
-/

open Js

namespace PrReviewer.Tools

open Model

/-! ## Notes -/

def duplicateNote : String :=
  "Duplicate request: this exact tool call already ran in this conversation. " ++
    "Reuse the earlier result instead of repeating the call."

def budgetNote : String :=
  "Tool-call budget exhausted: this call was not executed. " ++
    "Finish the analysis with the evidence you already have."

def budgetTurnNote : String :=
  "[loop budget] \x7brequestsLeft\x7d of \x7brequestsTotal\x7d tool request(s) and " ++
    "\x7broundsLeft\x7d of \x7broundsTotal\x7d turn(s) remain."

def lowBudgetTurnNote : String :=
  "[loop budget] Only \x7brequestsLeft\x7d tool request(s) and \x7broundsLeft\x7d " ++
    "turn(s) remain. Stop broad exploration now: prioritize confirming or " ++
    "rejecting your unresolved blocker hypotheses and gathering only the " ++
    "evidence still needed for the verdict."

def requiredEvidenceTurnNote : String :=
  "[loop budget] \x7brequestsLeft\x7d tool request(s) remain; \x7breservedCount\x7d request(s) are reserved for " ++
    "the unresolved required-evidence obligations. The reservation is now enforced: calls that target none of " ++
    "those obligations are refused and will not execute. Spend the reserved requests ONLY on evidence for those " ++
    "obligations (read the named files, fetch the named upstream compatibility matrix or document from the " ++
    "Required Review Evidence section) before any optional exploration."

def requiredEvidenceRefusalNote : String :=
  "Reserved required-evidence budget: this call targets none of the unresolved obligations from the Required " ++
    "Review Evidence section, and the remaining requests are reserved for them. It was NOT executed and did not " ++
    "consume budget. Spend the next calls on the obligation evidence itself — read the files and fetch the " ++
    "upstream documents the obligations name — then optional calls are allowed again."

def requiredEvidencePriorityTurnNote : String :=
  "[loop budget] Required review evidence comes first: resolve every outstanding obligation from the " ++
    "Required Review Evidence section with tools BEFORE spending calls on optional exploration " ++
    "(local-diff confirmation, history greps, redundant local reads)."

def traceEvidencePriorityTurnNote : String :=
  "[loop budget] In-scope requirement evidence comes first: for every code-verifiable requirement in the " ++
    "Requirement Trace Plan section, attempt the evidence its row marker names — a runtime row needs BOTH " ++
    "the enforcement location AND a matching regression test, a structural-state row the repository state " ++
    "it names (a regression test only when its own text demands one), a distributed row every seam — with " ++
    "repository reads and searches BEFORE spending calls on optional exploration (claim falsification, " ++
    "history greps, redundant local reads)."

def dependencyEvidencePriorityTurnNote : String :=
  "[loop budget] Required dependency evidence comes first: establish upstream " ++
    "provenance, inspect the exact old-to-new upstream release delta, and check " ++
    "security advisories (or record the check as not performed) BEFORE spending " ++
    "tool calls on optional archaeology, claim falsification, history greps, or " ++
    "redundant local-diff confirmation."

/-- The two window notes for trace rows differ in what is scarce. -/
def traceReserveWindowNote (scarce spent : String) : String :=
  "[loop budget] Only " ++ scarce ++ " remain and they are reserved for the in-scope " ++
    "requirement evidence still outstanding: \x7boutstanding\x7d. Those requirements are listed in the " ++
    "Requirement Trace Plan section — spend the reserved " ++ spent ++ " on repository reads and searches " ++
    "(read_file, find_files, list_tree, git_grep, git_log, git_blame) that name their files or terms. " ++
    "Optional calls are now refused, not executed. If the evidence cannot be located, report what is " ++
    "missing rather than approximating it."

def traceReserveWindowTurnNote : String :=
  traceReserveWindowNote "\x7brequestsLeft\x7d tool request(s)" "requests"

def traceReserveWindowRoundsTurnNote : String :=
  traceReserveWindowNote "\x7broundsLeft\x7d loop turn(s)" "turns"

def traceReserveRefusalNote : String :=
  "Reserved requirement-evidence budget: this call was not executed and spent none of the remaining " ++
    "requests. The reserved tail still owes \x7boutstanding\x7d — those requirements are listed in the " ++
    "Requirement Trace Plan section. Make a repository read or search that names their files or terms, " ++
    "or finish now and report the missing evidence as unknown / needs verification."

/-- The two window notes for dependency rows differ in what is scarce. -/
def reserveWindowNote (scarce : String) : String :=
  "[loop budget] Only " ++ scarce ++ " remain and they are reserved for the required dependency evidence still " ++
    "outstanding: \x7boutstanding\x7d, reached through web_fetch (plus web_search when that tool " ++
    "is offered to you). Optional and local-diff calls are now refused, not " ++
    "executed. If the evidence cannot be established, report what is missing " ++
    "rather than approximating it."

def reserveWindowTurnNote : String := reserveWindowNote "\x7brequestsLeft\x7d tool request(s)"

def reserveWindowRoundsTurnNote : String := reserveWindowNote "\x7broundsLeft\x7d loop turn(s)"

def reserveRefusalNote : String :=
  "Reserved dependency-evidence budget: this call was not executed and spent " ++
    "none of the remaining requests. The reserved tail still owes " ++
    "\x7boutstanding\x7d, reached with web_fetch (plus web_search when that tool is " ++
    "offered to you). Make one of those calls, or finish now and report the " ++
    "missing evidence as unknown / needs verification."

def traceWindowClause : String :=
  " The reservation also covers the unresolved in-scope requirements from the Requirement Trace Plan section — " ++
    "a repository read or search that names one of those executes as well."

/-- `PROSE_WINDOW_CLAUSE`, and `MIXED_WINDOW_CLAUSE` of the same text. -/
def proseWindowClause : String :=
  " The reservation also covers the unresolved rows of the Required Review Evidence section — " ++
    "a call that targets one of those executes as well."

/-- `template.replace(/\{(\w+)\}/g, …)`. -/
def formatNote (template : String) (values : List (String × String)) : String :=
  (RegExp.concat [.literal "\x7b", .group 1 (.plus (.char RegExp.isWord)), .literal "\x7d"]).replaceAll
    (fun m => ((m.group? 1).bind fun key => values.lookup key).getD "") template

def obligationLabel : DependencyEvidenceObligation → String
  | .provenance => "upstream publisher/source provenance"
  | .releaseDelta => "the exact old-to-new upstream release delta"
  | .securityAdvisory => "upstream security advisories"

def formatOutstandingObligations (outstanding : List DependencyEvidenceObligation) : String :=
  let labels := outstanding.map obligationLabel
  if labels.length ≤ 1 then labels.headD ""
  else ", ".intercalate labels.dropLast ++ " and " ++ labels.getLastD ""

/-- `MAX_GROUP_NAME_CHARS`. -/
def maxGroupNameChars : Nat := 60

/-- Runs of white space as one blank. -/
def collapseSpaces : List Char → List Char
  | [] => []
  | c :: cs =>
    if isSpace c then
      if (cs.head?.map isSpace).getD false then collapseSpaces cs else ' ' :: collapseSpaces cs
    else c :: collapseSpaces cs

def traceSeamLabel (name : String) : String :=
  let kept := name.toList.filter fun c => !(decide (c.toNat ≤ 0x1F) || c.toNat = 0x7F || c.toNat = 0x60)
  sliceTo maxGroupNameChars (trim (String.ofList (collapseSpaces kept)))

/-- `1 test read`, `2 test reads`. -/
def readsOwed (count : Nat) (kind : String) : List String :=
  if count = 0 then [] else [toString count ++ " " ++ kind ++ " read" ++ if count = 1 then "" else "s"]

def traceOutstandingDetail (row : RequiredEvidenceRow) (credited : List TraceEvidenceSlot) : String :=
  let unmet := traceUnmetSlots row credited
  let seamParts :=
    if row.isDistributed then
      (row.seams.take maxGroupsPerRule).zipIdx.filterMap fun (seam, index) =>
        let enforcement := unmet.contains ⟨some index, .enforcement⟩
        let test := unmet.contains ⟨some index, .test⟩
        let label := "seam " ++ traceSeamLabel seam.name
        if enforcement && test then some (label ++ ": enforcement + test reads owed")
        else if enforcement then some (label ++ ": enforcement read owed")
        else if test then some (label ++ ": test read owed")
        else none
    else []
  let counts (kind : TraceSlotKind) : Nat := unmet.countP (·.kind = kind)
  let parts := readsOwed (counts .enforcement) "enforcement" ++ readsOwed (counts .test) "test"
    ++ readsOwed (counts .any) "evidence"
  if seamParts ≠ [] then "; ".intercalate seamParts
  else if parts = [] then ""
  else " + ".intercalate parts ++ " owed"

/-! ## Options -/

structure LoopBudgets where
  maxToolCalls : Nat
  maxRounds : Nat
  wallClockSec : Number
  maxConversationTokens : Nat
  truncatedResultBytes : Nat
  summarizeKeepNewest : Nat

structure DriveToolLoopOptions where
  apiFormat : String
  budgets : LoopBudgets
  summarizeFn : Bool := false
  /-- The clock at the start. -/
  started : Number := 0
  wallClockDeadline : Option Number := none
  wallClockReserveSec : Option Number := none
  reserveForRequiredEvidence : Int := 0
  requiredEvidence : List RequiredEvidenceRow := []
  requiredEvidenceCredits : List String := []
  requiredEvidenceAttemptsPrior : Int := 0
  requiredEvidenceWindowAttemptsPrior : Int := 0
  requiredEvidenceAttemptsCap : Option Int := none
  parseMessage : String → String := fun _ => ""
  provenanceAttributes : Value → String := fun _ => ""

namespace DriveToolLoopOptions

variable (o : DriveToolLoopOptions)

def wallClockReserve : Number :=
  match o.wallClockReserveSec with
  | some sec => if sec.isFinite ∧ 0 < sec then sec else 0
  | none => 0

/-- `requiredEvidenceRequestsHint`. -/
def reserve : Nat := (min (o.budgets.maxToolCalls : Int) o.reserveForRequiredEvidence).toNat

/-- The rows that are tracked. -/
def pendingRows : List RequiredEvidenceRow := if 0 < o.reserve then o.requiredEvidence else []

def attemptsCap : Nat := (o.requiredEvidenceAttemptsCap.getD o.reserve).toNat

/-- The ids of tracked rows that the caller seeds. -/
def seededCredits : List String :=
  o.requiredEvidenceCredits.filter fun id => o.pendingRows.any (·.id = id)

end DriveToolLoopOptions

/-! ## Decisions on calls -/

/-- What the decisions on the calls are made from. -/
structure Decisions where
  callsExecuted : Nat := 0
  seenKeys : List String := []
  discharged : List String
  traceCredited : Map String (List TraceEvidenceSlot) := .empty
  evidenceAttempts : Nat
  windowEvidenceAttempts : Nat
  requiredEvidenceRefusals : Nat := 0

/-- What becomes of a call: an error for the model, a note, a refusal, or a run of the executor. -/
inductive Disposition where
  | error (message : String)
  | dup
  | budget
  | reserve (message : String)
  | exec (args : List (String × Value))

def Disposition.args? : Disposition → Option (List (String × Value))
  | .exec args => some args
  | _ => none

/-- What a round record counts a call as. -/
inductive Disposition.Kind where
  | executed
  | refused
  | deduplicated
  deriving DecidableEq

def Disposition.kind : Disposition → Disposition.Kind
  | .exec _ => .executed
  | .dup => .deduplicated
  | .error _ | .budget | .reserve _ => .refused

section

variable (o : DriveToolLoopOptions)

namespace Decisions

variable (d : Decisions)

/-- The slots of the row that calls have covered. -/
def creditedSlots (row : RequiredEvidenceRow) : List TraceEvidenceSlot := (d.traceCredited.get? row.id).getD []

def rowActive (row : RequiredEvidenceRow) : Bool :=
  !d.discharged.contains row.id && !(row.obligation.isSome && decide (o.attemptsCap ≤ d.windowEvidenceAttempts))

def hasActiveRow : Bool := o.pendingRows.any (d.rowActive o)

def anyActiveShapeRow : Bool := o.pendingRows.any fun row => row.obligation.isSome && d.rowActive o row

def anyActiveProseRow : Bool :=
  o.pendingRows.any fun row => row.obligation.isNone && !row.trace && d.rowActive o row

def anyActiveTraceRow : Bool := o.pendingRows.any fun row => row.trace && d.rowActive o row

/-- The outstanding trace rows by their ids, each with what it owes. -/
def outstandingTraceIds : List String :=
  (o.pendingRows.filter fun row => row.trace && d.rowActive o row).map fun row =>
    let id := if "trace:".toList.isPrefixOf row.id.toList then String.ofList (row.id.toList.drop 6) else row.id
    let detail := traceOutstandingDetail row (d.creditedSlots row)
    if detail = "" then id else id ++ " (" ++ detail ++ ")"

def outstandingShapeObligations : List DependencyEvidenceObligation :=
  (o.pendingRows.filter fun row => row.obligation.isSome && d.rowActive o row).filterMap (·.obligation)

/-- Whether an admitted call would advance a row, with the slot that it would cover. -/
def target? (name : String) (args : List (String × Value)) (row : RequiredEvidenceRow) :
    Option (RequiredEvidenceRow × Option TraceEvidenceSlot) :=
  if d.discharged.contains row.id then none
  else if row.trace then
    (traceSlotCreditForCall row name args (traceUnmetSlots row (d.creditedSlots row))).map fun slot =>
      (row, some slot)
  else if rowAdmittedByCall row name args then some (row, none)
  else none

/-- What an admitted call would advance. -/
def targets (name : String) (args : List (String × Value)) :
    List (RequiredEvidenceRow × Option TraceEvidenceSlot) :=
  o.pendingRows.filterMap (d.target? name args)

/-- The remaining requests or the remaining rounds are within the reservation. -/
def inWindow (rounds : Nat) : Bool :=
  decide ((o.budgets.maxToolCalls : Int) - d.callsExecuted ≤ o.reserve) ||
    decide ((o.budgets.maxRounds : Int) - (rounds - 1) ≤ o.reserve)

/-- The credit of an admitted call to one row, with the rows discharged and the slots credited so far. -/
def credit (p : Decisions × Nat × Nat) (target : RequiredEvidenceRow × Option TraceEvidenceSlot) :
    Decisions × Nat × Nat :=
  let (d, dischargedRows, attempts) := p
  let (row, slot) := target
  match if row.trace then slot else none with
  | some slot =>
    let credited := d.creditedSlots row ++ [slot]
    let d := { d with traceCredited := d.traceCredited.set row.id credited }
    if (traceRowSlots row).all fun candidate => credited.contains candidate then
      ({ d with discharged := d.discharged ++ [row.id] }, dischargedRows + 1, attempts + 1)
    else (d, dischargedRows, attempts + 1)
  | none => ({ d with discharged := d.discharged ++ [row.id] }, dischargedRows + 1, attempts)

/-- The refusal of a call that targets none of the rows. -/
def refusal : String :=
  if d.anyActiveShapeRow o then
    formatNote reserveRefusalNote
      [("outstanding", formatOutstandingObligations (d.outstandingShapeObligations o))] ++
      (if d.anyActiveTraceRow o then traceWindowClause
       else if d.anyActiveProseRow o then proseWindowClause else "")
  else if d.anyActiveTraceRow o then
    formatNote traceReserveRefusalNote [("outstanding", ", ".intercalate (d.outstandingTraceIds o))] ++
      (if d.anyActiveProseRow o then proseWindowClause else "")
  else requiredEvidenceRefusalNote

end Decisions

/-- `JSON.parse(call.arguments)` where it gives an object, else the message of the error. -/
def parseArguments (arguments : String) : Except String (List (String × Value)) :=
  if arguments = "" then .ok []
  else
    match Json.parse arguments with
    | none => .error (o.parseMessage arguments)
    | some (.object fields) => .ok fields
    | some _ => .error "arguments must be a JSON object"

/-- Mirrors the harness request key. -/
def requestKey (name : String) (args : List (String × Value)) : String :=
  name ++ ":" ++ pyDumpsCompactSortedAscii (.object args)

/-- The decisions after a call, its disposition, and the rows discharged and slots credited by it. -/
structure Decided where
  after : Decisions
  disposition : Disposition
  rowsDischarged : Nat := 0
  slotsCredited : Nat := 0

/-- A call that is run. `counts` says that it was made in the enforced window. -/
def Decisions.execute (d : Decisions) (name key : String) (counts : Bool) : Decisions :=
  let evidence := dependencyEvidenceTools.contains name
  { d with
    callsExecuted := d.callsExecuted + 1
    seenKeys := d.seenKeys ++ [key]
    evidenceAttempts := d.evidenceAttempts + if evidence then 1 else 0
    windowEvidenceAttempts := d.windowEvidenceAttempts + if evidence && counts then 1 else 0 }

/-- The disposition of one call, in round `rounds`. -/
def decideCall (rounds : Nat) (d : Decisions) (call : ToolCallRecord) : Decided :=
  match parseArguments o call.arguments with
  | .error message => ⟨d, .error ("Invalid tool arguments (not a JSON object): " ++ message), 0, 0⟩
  | .ok args =>
    let key := requestKey call.name args
    if d.seenKeys.contains key then ⟨d, .dup, 0, 0⟩
    else if o.budgets.maxToolCalls ≤ d.callsExecuted then ⟨d, .budget, 0, 0⟩
    else if 0 < o.reserve && d.hasActiveRow o then
      let targets := d.targets o call.name args
      let inWindow := d.inWindow o rounds
      if inWindow && targets.isEmpty &&
          !(dependencyEvidenceTools.contains call.name && d.anyActiveShapeRow o) then
        ⟨{ d with requiredEvidenceRefusals := d.requiredEvidenceRefusals + 1 }, .reserve (d.refusal o), 0, 0⟩
      else
        let (credited, rowsDischarged, slotsCredited) := targets.foldl Decisions.credit (d, 0, 0)
        ⟨credited.execute call.name key inWindow, .exec args, rowsDischarged, slotsCredited⟩
    else ⟨d.execute call.name key false, .exec args, 0, 0⟩

end

/-! ## Responses -/

def textParts (parts : List Value) : String :=
  String.join (parts.filterMap fun block =>
    if (block.get "type").string? = some "text" then (block.get "text").string? else none)

/-- `Array.isArray(value)`, with the elements. -/
def array? : Value → Option (List Value)
  | .array xs => some xs
  | _ => none

def isNullish : Value → Bool
  | .undefined | .null => true
  | _ => false

/-- `x ?? y`. -/
def orElse (x y : Value) : Value := if isNullish x then y else x

/-- A tool call of an Anthropic response. -/
def anthropicCall (block : Value) : Option ToolCallRecord :=
  if (block.get "type").string? = some "tool_use" then do
    let id ← (block.get "id").string?
    let name ← (block.get "name").string?
    return ⟨id, name, pyDumpsSorted (orElse (block.get "input") (.object []))⟩
  else none

/-- A tool call of an OpenAI response. -/
def openAiToolCall (call : Value) : Option ToolCallRecord := do
  let fn := call.get "function"
  let id ← (call.get "id").string?
  let name ← (orElse (fn.get "name") (call.get "name")).string?
  let args := orElse (fn.get "arguments") (call.get "arguments")
  return ⟨id, name, match args with
    | .string s => s
    | args => pyDumpsSorted (orElse args (.object []))⟩

/-- The calls of a response, and its text. -/
def extractToolCalls (response : Value) (apiFormat : String) : List ToolCallRecord × String :=
  match decide (apiFormat = "anthropic"), array? (response.get "choices") with
  | true, none =>
    let content := (array? (response.get "content")).getD []
    (content.filterMap anthropicCall, textParts content)
  | _, choices =>
    let message := ((choices.bind List.head?).map fun choice => choice.get "message").getD .undefined
    (((array? (message.get "tool_calls")).getD []).filterMap openAiToolCall,
      ((message.get "content").string?).getD "")

/-! ## The loop -/

structure ExecutedCall where
  tool : String
  args : List (String × Value)
  result : List (String × Value)

/-- The counts of a round record. -/
structure RoundRecord where
  round : Nat
  requested : Nat
  executed : Nat
  refused : Nat
  deduplicated : Nat
  requestsRemaining : Nat
  roundsRemaining : Nat
  deriving DecidableEq, Repr

inductive LoopEvent where
  /-- A request to the model with this conversation. -/
  | request (conversation : Conversation)
  /-- The disposition of a call in a round, with the decisions before it. -/
  | decided (rounds : Nat) (before : Decisions) (call : ToolCallRecord) (decided : Decided)
  /-- A call of the executor, with its answer. -/
  | execute (call : ExecutedCall)
  /-- A round record, and whether the round discharged a row or credited a slot. -/
  | round (record : RoundRecord) (progress : Bool)

inductive StopReason where
  | modelStopped
  | noToolCalls
  | maxRounds
  | toolCallBudgetExhausted
  | wallClockExceeded
  | wallClockVerdictReserve
  | requestError
  deriving DecidableEq, Repr

structure LoopState where
  conversation : Conversation
  decisions : Decisions
  executed : List ExecutedCall := []
  rounds : Nat := 0
  toolCallsIssued : Nat := 0
  finalText : String := ""
  error : String := ""
  toolResultBytes : Nat := 0
  compactionSummarize : Nat := 0
  compactionTruncate : Nat := 0
  peakConversationTokens : Nat := 0
  roundCeiling : Nat
  extensionRounds : Nat := 0
  /-- The loop has been left. -/
  stopReason : Option StopReason := none
  log : List LoopEvent := []

/-- What the surroundings answer in one turn. The executor answers for the call at an index, or throws. -/
structure Turn where
  firstReading : Number := 0
  secondReading : Number := 0
  summary : String → Except Exn String := fun _ => .ok ""
  response : Except Exn Value
  results : Nat → Except Exn (List (String × Value)) := fun _ => .ok []

section

variable (o : DriveToolLoopOptions)

/-- The stop of the wall clock before a turn. -/
def wallClockStop (t : Turn) : Option StopReason :=
  let exceeded := match o.wallClockDeadline.filter (·.isFinite) with
    | some deadline => decide (deadline ≤ t.firstReading)
    | none => decide (o.budgets.wallClockSec < t.firstReading - o.started)
  let remaining := match o.wallClockDeadline.filter (·.isFinite) with
    | some deadline => deadline - t.secondReading
    | none => o.started + o.budgets.wallClockSec - t.secondReading
  if exceeded then some .wallClockExceeded
  else if 0 < o.wallClockReserve ∧ remaining ≤ o.wallClockReserve then some .wallClockVerdictReserve
  else none

/-- What the summarizer makes of the conversation, with the number of results that were folded. -/
def foldResults (t : Turn) (s : LoopState) : Nat × Conversation :=
  if o.summarizeFn then
    match s.conversation.summarizeOldestToolResults t.summary o.budgets.summarizeKeepNewest with
    | .ok folded => folded
    | .error _ => (0, s.conversation)
  else (0, s.conversation)

/-- Compacts a conversation that has outgrown its budget. -/
def compact (t : Turn) (s : LoopState) : LoopState :=
  let s := { s with peakConversationTokens := max s.peakConversationTokens s.conversation.approxTokens }
  if s.conversation.approxTokens ≤ o.budgets.maxConversationTokens then s
  else
    let (summarized, conversation) := foldResults o t s
    let s := { s with
      conversation, compactionSummarize := s.compactionSummarize + if 0 < summarized then 1 else 0 }
    if summarized = 0 ∨ o.budgets.maxConversationTokens < conversation.approxTokens then
      { s with
        compactionTruncate := s.compactionTruncate + 1
        conversation := conversation.truncateOldestToolResults o.budgets.truncatedResultBytes }
    else s

/-- The note on the other rows of the window. -/
def otherClause (d : Decisions) : String :=
  if d.anyActiveShapeRow o then
    if d.anyActiveTraceRow o then traceWindowClause
    else if d.anyActiveProseRow o then proseWindowClause else ""
  else if d.anyActiveTraceRow o && d.anyActiveProseRow o then proseWindowClause
  else ""

/-- The note in front of the request; empty for no note. -/
def turnNote (s : LoopState) : String :=
  let d := s.decisions
  let requestsLeft := o.budgets.maxToolCalls - d.callsExecuted
  let roundsLeft := o.budgets.maxRounds - s.rounds
  if s.rounds = 0 then
    if 0 < o.reserve && d.hasActiveRow o then
      (if d.anyActiveShapeRow o then dependencyEvidencePriorityTurnNote
       else if d.anyActiveTraceRow o then traceEvidencePriorityTurnNote
       else requiredEvidencePriorityTurnNote) ++ otherClause o d
    else ""
  else
    let inObligationWindow :=
      0 < o.reserve && d.hasActiveRow o && (decide (requestsLeft ≤ o.reserve) || decide (roundsLeft ≤ o.reserve))
    let left := [("requestsLeft", toString requestsLeft), ("roundsLeft", toString roundsLeft)]
    let note :=
      if inObligationWindow then
        if d.anyActiveShapeRow o then
          formatNote (if requestsLeft ≤ o.reserve then reserveWindowTurnNote else reserveWindowRoundsTurnNote)
            (left ++ [("outstanding", formatOutstandingObligations (d.outstandingShapeObligations o))])
            ++ otherClause o d
        else if d.anyActiveTraceRow o then
          formatNote
            (if requestsLeft ≤ o.reserve then traceReserveWindowTurnNote else traceReserveWindowRoundsTurnNote)
            (left ++ [("outstanding", ", ".intercalate (d.outstandingTraceIds o))]) ++ otherClause o d
        else requiredEvidenceTurnNote
      else if requestsLeft ≤ 2 then lowBudgetTurnNote
      else budgetTurnNote
    formatNote note (left ++ [("reservedCount", toString o.reserve),
      ("requestsTotal", toString o.budgets.maxToolCalls), ("roundsTotal", toString s.roundCeiling)])

/-- The decisions on the calls of a round, with what each changed. -/
def decideCalls (rounds : Nat) : Decisions → List ToolCallRecord → List (Decisions × ToolCallRecord × Decided)
  | _, [] => []
  | d, call :: calls =>
    let decided := decideCall o rounds d call
    (d, call, decided) :: decideCalls rounds decided.after calls

/-- The answer of the executor; one that throws answers an error result. -/
def executorAnswer (name : String) : Except Exn (List (String × Value)) → List (String × Value)
  | .ok result => result
  | .error e =>
    [("tool", .string name), ("status", .string "error"), ("result", .object [("error", .string e.message)])]

/-- A call of the plan that is run, with the answer of the executor. -/
def executedCall? (t : Turn) (entry : (ToolCallRecord × Disposition) × Nat) : Option ExecutedCall :=
  entry.1.2.args?.map fun args => ⟨entry.1.1.name, args, executorAnswer entry.1.1.name (t.results entry.2)⟩

/-- Records the result of a call that was not run. -/
def applyRefusal (s : LoopState) (call : ToolCallRecord) (field text : String) : LoopState :=
  let data : Value := .object [(field, .string text)]
  { s with conversation := s.conversation.addToolResult call.id data true toolResultMaxBytes "" "" }

/-- Records the result of a call that was run. -/
def applyExecuted (s : LoopState) (call : ToolCallRecord) (executed : ExecutedCall) : LoopState :=
  let result := Value.object executed.result
  let body := orElse (result.get "result") (.object [])
  let maxBytes := if executed.tool = "read_skill" then skillResultMaxBytes else toolResultMaxBytes
  { s with
    executed := s.executed ++ [executed]
    toolResultBytes := s.toolResultBytes + (utf8 (pyDumps body)).length
    conversation := s.conversation.addToolResult call.id body ((result.get "status").string? ≠ some "ok") maxBytes
      executed.tool (o.provenanceAttributes (result.get "provenance")) }

/-- Records the result of a call. -/
def applyResult (t : Turn) (s : LoopState) (entry : (ToolCallRecord × Disposition) × Nat) : LoopState :=
  let call := entry.1.1
  match entry.1.2 with
  | .error message => applyRefusal s call "error" message
  | .dup => applyRefusal s call "note" duplicateNote
  | .budget => applyRefusal s call "error" budgetNote
  | .reserve message => applyRefusal s call "error" message
  | .exec args => applyExecuted o s call ⟨call.name, args, executorAnswer call.name (t.results entry.2)⟩

/-- The decisions after the calls of a round. -/
def decisionsAfter (rounds : Nat) (d : Decisions) (calls : List ToolCallRecord) : Decisions :=
  calls.foldl (fun d call => (decideCall o rounds d call).after) d

/-- The record of a round with this plan. -/
def roundRecord (s : LoopState) (requested : Nat) (plan : List (Decisions × ToolCallRecord × Decided))
    (decisions : Decisions) : RoundRecord where
  round := s.rounds
  requested
  executed := plan.countP fun p => p.2.2.disposition.kind = .executed
  refused := plan.countP fun p => p.2.2.disposition.kind = .refused
  deduplicated := plan.countP fun p => p.2.2.disposition.kind = .deduplicated
  requestsRemaining := o.budgets.maxToolCalls - decisions.callsExecuted
  roundsRemaining := o.budgets.maxRounds - s.rounds

/-- The round discharged a row or credited a slot. -/
def progressed (plan : List (Decisions × ToolCallRecord × Decided)) : Bool :=
  plan.any fun p => decide (0 < p.2.2.rowsDischarged) || decide (0 < p.2.2.slotsCredited)

/-- One more round, at the ceiling, while there is progress. -/
def extendCeiling (s : LoopState) (progress : Bool) : LoopState :=
  if 0 < o.reserve ∧ s.extensionRounds < o.reserve ∧ s.roundCeiling ≤ s.rounds ∧
      s.decisions.hasActiveRow o = true ∧ s.decisions.callsExecuted < o.budgets.maxToolCalls ∧ progress = true then
    { s with roundCeiling := s.roundCeiling + 1, extensionRounds := s.extensionRounds + 1 }
  else s

/-- The rest of a turn in which the model asked for calls. -/
def runCalls (t : Turn) (s : LoopState) (calls : List ToolCallRecord) : LoopState :=
  let plan := decideCalls o s.rounds s.decisions calls
  let decisions := decisionsAfter o s.rounds s.decisions calls
  let entries := (plan.map fun p => (p.2.1, p.2.2.disposition)).zipIdx
  let s := { s with
    decisions
    log := s.log ++ plan.map (fun p => .decided s.rounds p.1 p.2.1 p.2.2) ++
      (entries.filterMap (executedCall? t)).map .execute }
  let s := entries.foldl (applyResult o t) s
  let s := { s with log := s.log ++ [.round (roundRecord o s calls.length plan decisions) (progressed plan)] }
  let s := extendCeiling o s (progressed plan)
  if o.budgets.maxToolCalls ≤ decisions.callsExecuted then { s with stopReason := some .toolCallBudgetExhausted }
  else s

/-- A record of a round without calls. -/
def quietRecord (s : LoopState) (round : Nat) : LoopEvent :=
  .round {
    round, requested := 0, executed := 0, refused := 0, deduplicated := 0
    requestsRemaining := o.budgets.maxToolCalls - s.decisions.callsExecuted
    roundsRemaining := o.budgets.maxRounds - s.rounds } false

/-- The rest of a turn from the answer of the model on. -/
def respond (t : Turn) (s : LoopState) : LoopState :=
  match t.response with
  | .error e =>
    { s with
      stopReason := some .requestError, error := e.message, log := s.log ++ [quietRecord o s (s.rounds + 1)] }
  | .ok response =>
    let s := { s with rounds := s.rounds + 1 }
    let (calls, text) := extractToolCalls response o.apiFormat
    if calls = [] then
      { s with
        finalText := text
        stopReason := some (if 0 < s.toolCallsIssued then .modelStopped else .noToolCalls)
        log := s.log ++ [quietRecord o s s.rounds] }
    else
      let conversation := if text ≠ "" then s.conversation.addAssistantText text else s.conversation
      runCalls o t { s with
        conversation := conversation.addAssistantToolCalls calls
        toolCallsIssued := s.toolCallsIssued + calls.length } calls

/-- The request to the model. -/
def sendRequest (s : LoopState) : LoopState :=
  let conversation := s.conversation.addTurnNote (turnNote o s)
  { s with conversation, log := s.log ++ [.request conversation] }

/-- One turn of the loop; nothing after it was left. -/
def loopTurn (s : LoopState) (t : Turn) : LoopState :=
  if s.stopReason.isSome then s
  else if s.roundCeiling ≤ s.rounds then { s with stopReason := some .maxRounds }
  else
    match wallClockStop o t with
    | some reason => { s with stopReason := some reason }
    | none => respond o t (sendRequest o (compact o t s))

/-- The state before the first turn. -/
def LoopState.start (conversation : Conversation) : LoopState where
  conversation
  decisions := {
    discharged := o.seededCredits
    evidenceAttempts := o.requiredEvidenceAttemptsPrior.toNat
    windowEvidenceAttempts := o.requiredEvidenceWindowAttemptsPrior.toNat }
  roundCeiling := o.budgets.maxRounds

/-- The loop after these turns. -/
def driveToolLoop (conversation : Conversation) (turns : List Turn) : LoopState :=
  Machine.run (loopTurn o) (.start o conversation) turns

/-- `outcome.requestsRemaining`. -/
def LoopState.requestsRemaining (s : LoopState) : Nat := o.budgets.maxToolCalls - s.decisions.callsExecuted

/-- `outcome.requiredEvidenceCredits`. -/
def LoopState.requiredEvidenceCredits (s : LoopState) : List String :=
  (o.pendingRows.filter fun row => s.decisions.discharged.contains row.id).map (·.id)

end

end PrReviewer.Tools
