import PrReviewer.Jobs.Generation
import PrReviewer.Js.Machine

/-!
# Dispatch and reconciliation

`dispatchCanonicalEvent` (`src/ingress/dispatch.ts`) and `reconcileRepositories` (`src/ingress/reconcile.ts`) over one
generation ledger.

- A call stops where the source awaits: at a lister, at the identity resolver, at the ledger, at the queue handoff. What
  the ledger does and how the call goes on from it are two steps, so that the calls interleave at every await.
- The ledger is the list of the reserved ids; its operations do not fail.
- `maskDiagnostic` is a parameter. The log notes what a pass listed, who took a reservation, what was handed over and what
  was removed.
-/

open Js

namespace PrReviewer.Ingress

open Queue (ReviewJob JobPlatform)
open Events (CanonicalForgeEvent reconciliationPollEvent normalizeRepoFullName)
open Jobs (BuildJobOptions buildReviewJob shouldSchedule)

/-! ## Calls -/

inductive DispatchOutcome where
  | scheduled (job : ReviewJob)
  /-- It carries the job that is suppressed. -/
  | duplicate (job : ReviewJob)
  | ignored

inductive Dispatch where
  | reserving (job : ReviewJob)
  | answered (job : ReviewJob) (taken : Bool)
  | ended (outcome : DispatchOutcome)

structure ReconcileOptions where
  platform : JobPlatform
  repos : List String
  buildOptions : Option BuildJobOptions
  /-- There is a `resolveBuildOptions`; it wins over the static options. -/
  resolves : Bool
  installationId : Value
  /-- There is an `enqueueJob`. -/
  enqueues : Bool

structure ReconcileHandoffRefusal where
  repo : String
  reason : String

/-- The place of a pass in a listed repository. -/
structure Scan where
  rawRepo : String
  targetRepo : String
  /-- The entries still to come. -/
  entries : List Value
  /-- The identity of the repository, once it is resolved; `none` inside where nothing is minted for it. -/
  resolved : Option (Option BuildJobOptions)

inductive PassPhase where
  | listing (rawRepo targetRepo : String)
  | resolving (scan : Scan) (event : CanonicalForgeEvent)
  | reserving (scan : Scan) (job : ReviewJob)
  | reserved (scan : Scan) (job : ReviewJob) (taken : Bool)
  | handing (scan : Scan) (job : ReviewJob)
  | releasing (scan : Scan) (job : ReviewJob) (reason : String)
  | released (scan : Scan) (reason : String)
  | ended

structure Pass where
  options : ReconcileOptions
  /-- The repositories still to come. -/
  repos : List String
  jobs : List ReviewJob
  failed : List String
  refusals : List ReconcileHandoffRefusal
  discovered : Nat
  skipped : Nat
  phase : PassPhase

/-- What the queue handoff answers, or the message of what it throws. -/
inductive Handoff where
  | answers (accepted : Bool)
  | throws (message : String)

def maxHandoffRefusals : Nat := 25

def handoffRefusedReason : String := "the queue handoff refused the job"

/-- `[\u0000-\u001f\u007f-\u009f\u2028\u2029]`. -/
def breaksLine (c : Char) : Bool :=
  c.toNat ≤ 0x1F || (0x7F ≤ c.toNat && c.toNat ≤ 0x9F) || c.toNat == 0x2028 || c.toNat == 0x2029

/-- Each run of characters of the class becomes one space; `inRun` says that one has begun. -/
def collapse : Bool → List Char → List Char
  | _, [] => []
  | inRun, c :: cs => if breaksLine c then (if inRun then [] else [' ']) ++ collapse true cs else c :: collapse false cs

section

variable (toLowerCase sha256 maskDiagnostic : String → String)

def describeHandoffRefusal (message : String) : String :=
  let singleLine := trim (String.ofList (collapse false message.toList))
  maskDiagnostic (if singleLine = "" then handoffRefusedReason else singleLine)

/-- Up to the reservation. -/
def dispatchCanonicalEvent (event : CanonicalForgeEvent) (options : BuildJobOptions) : Dispatch :=
  if shouldSchedule event = false then .ended .ignored
  else
    match buildReviewJob toLowerCase sha256 event options with
    | none => .ended .ignored
    | some job => .reserving job

namespace Pass

variable (p : Pass)

def skip : Pass := { p with skipped := p.skipped + 1 }

def fail (rawRepo : String) : Pass := { p with failed := p.failed ++ [rawRepo] }

def refuse (repo reason : String) : Pass where
  __ := p.skip
  refusals := if p.refusals.length < maxHandoffRefusals then p.refusals ++ [⟨repo, reason⟩] else p.refusals

/-- Up to the next lister. -/
def nextRepo : Pass → List String → Pass
  | p, [] => { p with repos := [], phase := .ended }
  | p, rawRepo :: repos =>
    let targetRepo := normalizeRepoFullName toLowerCase rawRepo
    if targetRepo = "" then nextRepo (p.fail rawRepo) repos
    else { p with repos, phase := .listing rawRepo targetRepo }

/-- The job of an entry under an identity. -/
def mint (event : CanonicalForgeEvent) (identity : Option BuildJobOptions) : Option ReviewJob :=
  identity.bind (buildReviewJob toLowerCase sha256 event)

/-- Through the entries of a repository, up to the next await. -/
def nextEntry (rawRepo targetRepo : String) : Pass → Option (Option BuildJobOptions) → List Value → Pass
  | p, _, [] => nextRepo toLowerCase p p.repos
  | p, resolved, entry :: entries =>
    let p := { p with discovered := p.discovered + 1 }
    match reconciliationPollEvent toLowerCase p.options.platform entry p.options.installationId with
    | none => nextEntry rawRepo targetRepo p.skip resolved entries
    | some event =>
      if event.repoFullName ≠ targetRepo then nextEntry rawRepo targetRepo p.skip resolved entries
      else
        match resolved.or (if p.options.resolves then none else some (some (p.options.buildOptions.getD .none))) with
        | none => { p with phase := .resolving ⟨rawRepo, targetRepo, entries, none⟩ event }
        | some identity =>
          match mint toLowerCase sha256 event identity with
          | none => nextEntry rawRepo targetRepo p.skip (some identity) entries
          | some job => { p with phase := .reserving ⟨rawRepo, targetRepo, entries, some identity⟩ job }

def resumeScan (scan : Scan) : Pass :=
  nextEntry toLowerCase sha256 scan.rawRepo scan.targetRepo p scan.resolved scan.entries

/-- The lister answered, with the entries if it is ok. -/
def listed (data : Option (List Value)) : Pass :=
  match p.phase with
  | .listing rawRepo targetRepo =>
    match data with
    | none => nextRepo toLowerCase (p.fail rawRepo) p.repos
    | some entries => p.resumeScan toLowerCase sha256 { rawRepo, targetRepo, entries, resolved := none }
  | _ => p

/-- The resolver answered; `none` is a throw. -/
def resolved (answer : Option (Option BuildJobOptions)) : Pass :=
  match p.phase with
  | .resolving scan event =>
    match answer with
    | none => nextRepo toLowerCase (p.fail scan.rawRepo) p.repos
    | some identity =>
      match mint toLowerCase sha256 event identity with
      | none => p.skip.resumeScan toLowerCase sha256 { scan with resolved := some identity }
      | some job => { p with phase := .reserving { scan with resolved := some identity } job }
  | _ => p

/-- The job belongs to the report. -/
def push (scan : Scan) (job : ReviewJob) : Pass :=
  resumeScan toLowerCase sha256 { p with jobs := p.jobs ++ [job] } scan

/-- How the pass goes on from an answer of the ledger. -/
def resume : Pass :=
  match p.phase with
  | .reserved scan job true =>
    if p.options.enqueues then { p with phase := .handing scan job } else p.push toLowerCase sha256 scan job
  | .reserved scan _ false => p.skip.resumeScan toLowerCase sha256 scan
  | .released scan reason => (p.refuse scan.rawRepo reason).resumeScan toLowerCase sha256 scan
  | _ => p

def handedOver (answer : Handoff) : Pass :=
  match p.phase with
  | .handing scan job =>
    match answer with
    | .answers true => p.push toLowerCase sha256 scan job
    | .answers false => { p with phase := .releasing scan job handoffRefusedReason }
    | .throws message => { p with phase := .releasing scan job (describeHandoffRefusal maskDiagnostic message) }
  | _ => p

end Pass

/-- A pass begins. -/
def reconcileRepositories (options : ReconcileOptions) : Pass :=
  Pass.nextRepo toLowerCase
    { options
      repos := options.repos
      jobs := []
      failed := []
      refusals := []
      discovered := 0
      skipped := 0
      phase := .ended }
    options.repos

/-! ## The system -/

inductive Caller where
  | dispatch (n : Nat)
  | pass (n : Nat)
  deriving DecidableEq

inductive LogEntry where
  | listed (pass : Nat) (rawRepo : String) (entries : List Value)
  /-- `addIfAbsent` was true for the caller. -/
  | scheduled (caller : Caller) (job : ReviewJob)
  | handedOver (pass : Nat) (job : ReviewJob)
  /-- `remove` was called by the pass, or by who enqueues what was scheduled. -/
  | removed (pass : Option Nat) (jobId : String)

structure System where
  ledger : List String
  dispatches : List Dispatch
  passes : List Pass
  log : List LogEntry

inductive Event where
  | dispatch (event : CanonicalForgeEvent) (options : BuildJobOptions)
  | reconcile (options : ReconcileOptions)
  | list (pass : Nat) (data : Option (List Value))
  | resolve (pass : Nat) (answer : Option (Option BuildJobOptions))
  /-- The ledger does what the caller waits for. -/
  | ledger (caller : Caller)
  /-- The caller goes on from what the ledger did. -/
  | resume (caller : Caller)
  | handoff (pass : Nat) (answer : Handoff)
  /-- A job that could not be enqueued is released. -/
  | release (jobId : String)

namespace System

variable (s : System)

def logged (entries : List LogEntry) : System := { s with log := s.log ++ entries }

def setPass (i : Nat) (p : Pass) : System := { s with passes := s.passes.set i p }

def setDispatch (i : Nat) (d : Dispatch) : System := { s with dispatches := s.dispatches.set i d }

/-- `addIfAbsent` for a caller, up to its own state. -/
def addIfAbsent (caller : Caller) (job : ReviewJob) : System :=
  if job.jobId ∈ s.ledger then s
  else { s with ledger := job.jobId :: s.ledger, log := s.log ++ [.scheduled caller job] }

/-- `remove`. -/
def remove (pass : Option Nat) (jobId : String) : System :=
  { s with ledger := s.ledger.filter (· ≠ jobId), log := s.log ++ [.removed pass jobId] }

def step : Event → System
  | .dispatch event options =>
    { s with dispatches := s.dispatches ++ [dispatchCanonicalEvent toLowerCase sha256 event options] }
  | .reconcile options => { s with passes := s.passes ++ [reconcileRepositories toLowerCase options] }
  | .list i data =>
    match s.passes[i]? with
    | none => s
    | some p =>
      match p.phase, data with
      | .listing rawRepo _, some entries =>
        (s.setPass i (p.listed toLowerCase sha256 data)).logged [.listed i rawRepo entries]
      | _, _ => s.setPass i (p.listed toLowerCase sha256 data)
  | .resolve i answer =>
    match s.passes[i]? with
    | none => s
    | some p => s.setPass i (p.resolved toLowerCase sha256 answer)
  | .ledger (.dispatch i) =>
    match s.dispatches[i]? with
    | some (.reserving job) =>
      (s.addIfAbsent (.dispatch i) job).setDispatch i (.answered job (decide (job.jobId ∉ s.ledger)))
    | _ => s
  | .ledger (.pass i) =>
    match s.passes[i]? with
    | none => s
    | some p =>
      match p.phase with
      | .reserving scan job =>
        (s.addIfAbsent (.pass i) job).setPass i
          { p with phase := .reserved scan job (decide (job.jobId ∉ s.ledger)) }
      | .releasing scan job reason => (s.remove (some i) job.jobId).setPass i { p with phase := .released scan reason }
      | _ => s
  | .resume (.dispatch i) =>
    match s.dispatches[i]? with
    | some (.answered job taken) => s.setDispatch i (.ended (if taken then .scheduled job else .duplicate job))
    | _ => s
  | .resume (.pass i) =>
    match s.passes[i]? with
    | none => s
    | some p => s.setPass i (p.resume toLowerCase sha256)
  | .handoff i answer =>
    match s.passes[i]? with
    | none => s
    | some p =>
      match p.phase, answer with
      | .handing _ job, .answers true =>
        (s.setPass i (p.handedOver toLowerCase sha256 maskDiagnostic answer)).logged [.handedOver i job]
      | _, _ => s.setPass i (p.handedOver toLowerCase sha256 maskDiagnostic answer)
  | .release jobId => s.remove none jobId

end System

/-- The system over a ledger that has these ids. -/
def System.boot (ledger : List String) : System := ⟨ledger, [], [], []⟩

end

end PrReviewer.Ingress
