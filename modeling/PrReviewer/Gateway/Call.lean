import PrReviewer.Gateway.Ledger

/-!
# The model gateway

`call` admits a request (validate, verify the capability, find the profile, reserve), then joins the
dispatch in flight for the same run and reservation or leads a new one. `dispatch` awaits the broker,
then the transport, and settles its row. A promise of a dispatch is its index in `dispatches`; between
two awaits the code runs as one stretch, an `Action` on the whole gateway.

- `Event` is what makes code run: a new call, a seam that answers, a callback of a settled dispatch
  (`released`, `resumed`), or a cancellation of a run. In any state any event may come; one that has
  nothing to wait for it does nothing.
- The seams (capability, broker, transport, the gateway's clock) may give any answer or throw, at once
  or later; they do not call the gateway back while it calls them. The ledger's clock does not throw.
- What the gateway computes from the provider's response (the secret scan, the usage record) is part of
  the response here.
- `log` keeps what the claims are about: each invocation of the transport, and who settled which row.
-/

open Js

namespace PrReviewer.Gateway

/-! ## Inputs and outcomes -/

inductive CapabilityRefusalCode where
  | invalidToken
  | expired
  | wrongRun
  | profileMismatch
  | cancelled
  | budgetBoundsMismatch
  deriving DecidableEq

/-- `CapabilityVerification`: accepted, or a refusal. -/
abbrev CapabilityVerification := Except (CapabilityRefusalCode × String) Unit

inductive GatewayRefusalCode where
  | capability (code : CapabilityRefusalCode)
  | budget (code : BudgetRefusalCode)
  | unknownProfile
  | credentialRefused
  | reservationSettled
  | usageRecordInvalid
  | providerResponseUnsafe
  | transportFailure
  | gatewayError
  deriving DecidableEq

inductive ResolutionRefusalCode where
  | unknownReference
  | expired
  | revoked
  | scopeMismatch
  | invalidRequest
  deriving DecidableEq

def ResolutionRefusalCode.name : ResolutionRefusalCode → String
  | .unknownReference => "unknown_reference"
  | .expired => "expired"
  | .revoked => "revoked"
  | .scopeMismatch => "scope_mismatch"
  | .invalidRequest => "invalid_request"

/-- `CREDENTIAL_REFUSAL_REASONS`. -/
def credentialRefusalReasons : ResolutionRefusalCode → String
  | .unknownReference => "the credential reference is not held by this broker"
  | .expired => "the credential material has expired or could not be refreshed"
  | .revoked => "the credential reference has been revoked"
  | .scopeMismatch => "the credential is bound to a different scope than this run"
  | .invalidRequest => "the credential request was malformed"

/-- The figures of a usage record that the gateway settles with. -/
structure UsageRecord where
  inputTokens : Number
  outputTokens : Number
  costMicros : Number

inductive GatewayCallOutcome where
  | ok (usage : UsageRecord)
  | refused (code : GatewayRefusalCode) (reason : String)

/-- `payload` says whether `payload` and `payload.body` are objects. -/
structure GatewayCallInput where
  token : String
  runId : String
  modelProfile : String
  role : String
  usageId : String
  reservationId : String
  platform : String
  installationId : String
  repoFullName : String
  payload : Bool

/-- `isValidProfileName`; `PROFILE_NAME_RE` is `/^[A-Za-z0-9][A-Za-z0-9._-]{0,63}$/`. -/
def isValidProfileName (s : String) : Bool :=
  match s.toList with
  | [] => true
  | c :: cs => isAlphanumeric c && decide (cs.length ≤ 63) && cs.all isTokenChar

/-- `""` for a well-formed input, otherwise a fixed reason. -/
def validateCallInput (input : GatewayCallInput) : String :=
  if input.token = "" ∨ 512 < strLength input.token then "gateway call token is absent or overlong"
  else if !runIdRe input.runId then "gateway call run id is malformed"
  else if !isValidProfileName input.modelProfile ∨ input.modelProfile = "" then
    "gateway call model profile is malformed"
  else if input.role ∉ ["primary", "specialist", "tool", "evidence", "judge"] then
    "gateway call role must be a UsageRole"
  else if strLength input.usageId = 0 ∨ 256 < strLength input.usageId ∨
      input.usageId ≠ trim input.usageId then "gateway call usage id is malformed"
  else if strLength input.reservationId = 0 ∨ 128 < strLength input.reservationId ∨
      input.reservationId ≠ trim input.reservationId then
    "gateway call reservation id is malformed"
  else if input.platform ∉ ["github", "forgejo"] then
    "gateway call platform must be 'github' or 'forgejo'"
  else if 128 < strLength input.installationId then "gateway call installation id is malformed"
  else if input.repoFullName = "" ∨ 256 < strLength input.repoFullName then
    "gateway call repository is malformed"
  else if !input.payload then "gateway call payload is malformed"
  else ""

/-- The broker's answer: the material, or a refusal. -/
inductive Resolution where
  | material
  | refused (code : ResolutionRefusalCode)

/-- The transport's answer. Of a response: whether it carries a known secret, and the usage record that
it gives (`none` when the record fails its validation). -/
inductive ChatRequestOutcome where
  | ok (carriesSecret : Bool) (usage : Option UsageRecord)
  | failure (kind : String)

/-! ## The state -/

structure GatewayPerRequestBudget where
  maxTokens : Number
  maxCostMicros : Number

structure ModelGatewayOptions where
  caps : GatewayBudgetLimits
  perRequestBudget : GatewayPerRequestBudget
  profiles : List String

/-- Where a dispatch is: it awaits the broker or the transport, or its promise has settled. -/
inductive Progress where
  | broker
  | transport
  | settled (result : Except Exn GatewayCallOutcome)

structure Dispatch where
  runId : String
  reservationId : String
  progress : Progress
  released : Bool

/-- Where a call is: it awaits a dispatch, with the ids that it captured, or its promise has settled. -/
inductive CallState where
  | awaiting (dispatch : Nat) (runId reservationId : String)
  | settled (result : Except Exn GatewayCallOutcome)

/-- The code that settles a row. -/
inductive Party where
  | dispatch (n : Nat)
  | call (k : Nat)
  deriving DecidableEq

inductive Effect where
  | transport (dispatch : Nat) (runId reservationId : String)
  | settled (party : Party) (runId reservationId : String)
  deriving DecidableEq

structure ModelGateway where
  ledger : InMemoryBudgetLedger
  inFlight : Map String (Map String Nat)
  dispatches : List Dispatch
  calls : List CallState
  log : List Effect

/-! ## The code -/

/-- The row is recorded and in state `reserved`. -/
def InMemoryBudgetLedger.live (l : InMemoryBudgetLedger) (runId reservationId : String) : Bool :=
  (l.row? runId reservationId).any (·.state = .reserved)

namespace ModelGateway

/-- The gateway after `party` called the ledger, which is `l` now. -/
def wrote (g : ModelGateway) (party : Party) (runId reservationId : String)
    (l : InMemoryBudgetLedger) : ModelGateway :=
  { g with
    ledger := l
    log := if g.ledger.live runId reservationId && !l.live runId reservationId then
        g.log ++ [.settled party runId reservationId]
      else g.log }

def refund (party : Party) (runId reservationId : String) (now : Number) :
    Action ModelGateway Unit :=
  modify fun g => g.wrote party runId reservationId (g.ledger.refund now runId reservationId).2

def commit (party : Party) (runId reservationId : String) (now : Number)
    (actual : BudgetActualUsage) : Action ModelGateway BudgetResult := do
  let g ← get
  let r := g.ledger.commit now runId reservationId actual
  set (g.wrote party runId reservationId r.2)
  return r.1

def gatewayError : GatewayCallOutcome :=
  .refused .gatewayError "the gateway's transport or credential seam threw an unexpected error"

/-- The `try … catch` of `dispatch`, around a stretch of its body. -/
def dispatchTry (n : Nat) (d : Dispatch) (now : Number) (body : Action ModelGateway Progress) :
    Action ModelGateway Progress :=
  tryCatch body fun _ => do
    refund (.dispatch n) d.runId d.reservationId now
    return .settled (.ok gatewayError)

def refuse (code : GatewayRefusalCode) (reason : String) : Action ModelGateway Progress :=
  return .settled (.ok (.refused code reason))

/-- `dispatch` up to its first `await`: `broker.resolve` throws at once, or returns a promise. -/
def begin (resolve : Except Exn Unit) : Action ModelGateway Progress := do
  Action.lift resolve
  return .broker

/-- `dispatch` from the broker's answer on, to the promise of `runChat`. -/
def resolved (n : Nat) (d : Dispatch) (now : Number) (answer : Except Exn Resolution)
    (chat : Except Exn Unit) : Action ModelGateway Progress := do
  match ← Action.lift answer with
  | .refused code =>
    refund (.dispatch n) d.runId d.reservationId now
    refuse .credentialRefused ("credential broker refused the model credential (" ++ code.name ++
      "): " ++ credentialRefusalReasons code)
  | .material =>
    modify fun g => { g with log := g.log ++ [.transport n d.runId d.reservationId] }
    Action.lift chat
    return .transport

/-- The end of `dispatch`, after the ledger's answer to the commit. -/
def concluded (n : Nat) (d : Dispatch) (now : Number) (usage : UsageRecord) :
    BudgetResult → Action ModelGateway Progress
  | .error e => do
    refund (.dispatch n) d.runId d.reservationId now
    refuse (.budget e.code) e.reason
  | .ok _ => return .settled (.ok (.ok usage))

/-- `dispatch` from the transport's answer on. The gateway's clock is read for the usage record and for
the attempt record; each reading may throw. -/
def answered (n : Nat) (d : Dispatch) (now : Number) (answer : Except Exn ChatRequestOutcome)
    (usageClock attemptClock : Except Exn Unit) : Action ModelGateway Progress := do
  match ← Action.lift answer with
  | .ok true _ =>
    refund (.dispatch n) d.runId d.reservationId now
    Action.lift attemptClock
    refuse .providerResponseUnsafe
      "the provider's response carried the model credential; the call was refused"
  | .ok false usage =>
    Action.lift usageClock
    match usage with
    | none =>
      refund (.dispatch n) d.runId d.reservationId now
      Action.lift attemptClock
      refuse .usageRecordInvalid "the produced usage record failed durable-shape validation"
    | some usage =>
      let committed ← commit (.dispatch n) d.runId d.reservationId now
        ⟨1, usage.inputTokens + usage.outputTokens, usage.costMicros⟩
      concluded n d now usage committed
  | .failure kind =>
    refund (.dispatch n) d.runId d.reservationId now
    Action.lift attemptClock
    refuse .transportFailure ("model request failed (" ++ kind ++ ")")

def setProgress (g : ModelGateway) (n : Nat) (p : Progress) : ModelGateway :=
  { g with dispatches := g.dispatches.modify n fun d => { d with progress := p } }

/-- A stretch of the dispatch `n` to its next `await` or its end. -/
def runDispatch (n : Nat) (body : Action ModelGateway Progress) (g : ModelGateway) : ModelGateway :=
  match body g with
  | .ok p g' => g'.setProgress n p
  | .error e g' => g'.setProgress n (.settled (.error e))

/-- What `call` asks the ledger for: the operator's per-request budget, in the current generation. -/
def reservation (o : ModelGatewayOptions) (input : GatewayCallInput) (generation : Nat) :
    BudgetReservationInput where
  reservationId := input.reservationId
  runId := input.runId
  generation := Float.ofNat generation
  modelProfile := input.modelProfile
  estimatedTokens := o.perRequestBudget.maxTokens
  estimatedCostMicros := o.perRequestBudget.maxCostMicros

/-- The end of the admission: an early return, or the ledger's live row. -/
def reserve (request : BudgetReservationInput) (now : Number) :
    Action ModelGateway (Except GatewayCallOutcome BudgetReservationRow) := do
  let g ← get
  let r := g.ledger.reserve now request
  set { g with ledger := r.2 }
  match r.1 with
  | .error e => return .error (.refused (.budget e.code) e.reason)
  | .ok row =>
    if row.state ≠ .reserved then
      return .error (.refused .reservationSettled
        "this reservation id was already settled; a retried request must use a fresh reservation id")
    else return .ok row

/-- The admission of a call: an early return, or the ledger's live row. -/
def admission (o : ModelGatewayOptions) (input : GatewayCallInput)
    (verdict : Except Exn CapabilityVerification) (now : Number) :
    Action ModelGateway (Except GatewayCallOutcome BudgetReservationRow) := do
  if validateCallInput input ≠ "" then
    return .error (.refused (.budget .invalidRequest) (validateCallInput input))
  let g ← get
  let expectedGeneration := g.ledger.generationFor input.runId
  match ← Action.lift verdict with
  | .error (code, reason) => return .error (.refused (.capability code) reason)
  | .ok () =>
    if input.modelProfile ∉ o.profiles then
      return .error (.refused .unknownProfile
        "the token's model profile has no gateway endpoint configuration")
    else reserve (reservation o input expectedGeneration) now

/-- The admission with its `catch`: no ids are captured yet. -/
def admitCall (o : ModelGatewayOptions) (input : GatewayCallInput)
    (verdict : Except Exn CapabilityVerification) (now : Number) :
    Action ModelGateway (Except GatewayCallOutcome BudgetReservationRow) :=
  tryCatch (admission o input verdict now) fun _ => return .error gatewayError

/-- The promise registered for a run and a reservation. -/
def joined (g : ModelGateway) (runId reservationId : String) : Option Nat :=
  (g.inFlight.get? runId).bind (·.get? reservationId)

def register (g : ModelGateway) (runId reservationId : String) (n : Nat) : ModelGateway :=
  let runCalls := (g.inFlight.get? runId).getD Map.empty
  { g with inFlight := g.inFlight.set runId (runCalls.set reservationId n) }

/-- Join the dispatch in flight, or lead a new one. -/
def joinOrLead (runId reservationId : String) (resolve : Except Exn Unit) (now : Number) :
    Action ModelGateway CallState := do
  let g ← get
  match g.joined runId reservationId with
  | some n => return .awaiting n runId reservationId
  | none =>
    let n := g.dispatches.length
    let d : Dispatch := ⟨runId, reservationId, .broker, false⟩
    modify fun g => { g with dispatches := g.dispatches ++ [d] }
    modify (runDispatch n (dispatchTry n d now (begin resolve)))
    modify (·.register runId reservationId n)
    return .awaiting n runId reservationId

/-- `call` up to its first `await`. Its `catch` refunds once the ids are captured. -/
def call (o : ModelGatewayOptions) (k : Nat) (input : GatewayCallInput)
    (verdict : Except Exn CapabilityVerification) (resolve : Except Exn Unit) (now : Number) :
    Action ModelGateway CallState := do
  match ← admitCall o input verdict now with
  | .error outcome => return .settled (.ok outcome)
  | .ok row =>
    tryCatch (joinOrLead row.runId row.reservationId resolve now) fun _ => do
      refund (.call k) row.runId row.reservationId now
      return .settled (.ok gatewayError)

/-- `call` from the settled promise on. -/
def resume (k : Nat) (runId reservationId : String) (result : Except Exn GatewayCallOutcome)
    (now : Number) : Action ModelGateway CallState :=
  tryCatch (do return .settled (.ok (← Action.lift result))) fun _ => do
    refund (.call k) runId reservationId now
    return .settled (.ok gatewayError)

/-- The callback `release` of the dispatch `n`. -/
def release (n : Nat) (d : Dispatch) (g : ModelGateway) : ModelGateway :=
  let inFlight := match g.inFlight.get? d.runId with
    | none => g.inFlight
    | some rows =>
      let rows := rows.delete d.reservationId
      if rows.size = 0 then g.inFlight.delete d.runId else g.inFlight.set d.runId rows
  { g with
    inFlight := inFlight
    dispatches := g.dispatches.modify n fun d => { d with released := true } }

/-- A stretch of the call `k`. -/
def runCall (k : Nat) (body : Action ModelGateway CallState) (g : ModelGateway) : ModelGateway :=
  match body g with
  | .ok s g' => { g' with calls := g'.calls.set k s }
  | .error e g' => { g' with calls := g'.calls.set k (.settled (.error e)) }

/-! ## Events -/

inductive Event where
  | call (input : GatewayCallInput) (verdict : Except Exn CapabilityVerification)
      (resolve : Except Exn Unit)
  | brokerSettled (n : Nat) (answer : Except Exn Resolution) (chat : Except Exn Unit)
  | transportSettled (n : Nat) (answer : Except Exn ChatRequestOutcome)
      (usageClock attemptClock : Except Exn Unit)
  | released (n : Nat)
  | resumed (k : Nat)
  | cancelRun (runId : String)

/-- An event, and what the ledger's clock shows in its stretch. -/
structure Label where
  event : Event
  now : Number

def step (o : ModelGatewayOptions) (g : ModelGateway) (l : Label) : ModelGateway :=
  match l.event with
  | .call input verdict resolve =>
    let k := g.calls.length
    -- the new call has a place, which its first stretch fills
    runCall k (call o k input verdict resolve l.now)
      { g with calls := g.calls ++ [.settled (.ok gatewayError)] }
  | .brokerSettled n answer chat =>
    match g.dispatches[n]? with
    | some d =>
      match d.progress with
      | .broker => runDispatch n (dispatchTry n d l.now (resolved n d l.now answer chat)) g
      | _ => g
    | none => g
  | .transportSettled n answer usageClock attemptClock =>
    match g.dispatches[n]? with
    | some d =>
      match d.progress with
      | .transport =>
        runDispatch n
          (dispatchTry n d l.now (answered n d l.now answer usageClock attemptClock)) g
      | _ => g
    | none => g
  | .released n =>
    match g.dispatches[n]? with
    | some d =>
      match d.progress with
      | .settled _ => if d.released then g else release n d g
      | _ => g
    | none => g
  | .resumed k =>
    match g.calls[k]? with
    | some (.awaiting n runId reservationId) =>
      match (g.dispatches[n]?).map Dispatch.progress with
      | some (.settled result) => runCall k (resume k runId reservationId result l.now) g
      | _ => g
    | _ => g
  | .cancelRun runId => { g with ledger := (g.ledger.cancelRun runId).2 }

/-- A gateway over a new ledger. -/
def fresh (o : ModelGatewayOptions) : ModelGateway := ⟨.fresh o.caps, .empty, [], [], []⟩

def run (o : ModelGatewayOptions) (labels : List Label) : ModelGateway :=
  Machine.run (step o) (fresh o) labels

end ModelGateway

end PrReviewer.Gateway
