import PrReviewer.Js.Loop
import PrReviewer.Js.Value

/-!
# The CI gate

`src/gates/ci-wait.ts`: polling the external checks of a head until they are final or the deadline has come.

**Time** is in whole seconds. A reading of the clock comes some time after the reading or the sleep before it
(`World.drift`), and a sleep ends when it was asked to at the earliest: what it lasts longer belongs to the next reading.
So every clock that does not go back, with sleeps that last at least as long as asked, is a `World`.

The lines that are logged are left out, and so is the discovery of the run's own status, which only changes them.
-/

namespace PrReviewer.Gates

open Js

def CI_EVIDENCE_TIMEOUT_STATE : String := "timeout (CI did not finish in time)"

/-- A check of the head. The name is its text in the evidence, before it is escaped. -/
structure ExternalCheck where
  name : String
  state : String
  conclusion : Option String
  deriving DecidableEq

structure World where
  start : Int
  drift : Nat → Nat
  answers : Nat → Option (List ExternalCheck)

/-- The environment, where a variable that is not set is empty; the platform of the adapter, when it can be built; the
head that the bounded lookup finds; `toLowerCase`. -/
structure CiWaitDeps where
  env : String → String
  platform : Option String
  boundedHeadSha : String
  toLowerCase : String → String

namespace CiWaitDeps

variable (deps : CiWaitDeps)

def envOr (key fallback : String) : String := if deps.env key = "" then fallback else deps.env key

/-- The first of two variables that is not empty. -/
def envEither (key other : String) : String := if deps.env key = "" then deps.env other else deps.env key

end CiWaitDeps

/-- `Number(digits)`. -/
def digitsValue (cs : List Char) : Nat := cs.foldl (fun n c => 10 * n + (c.toNat - '0'.toNat)) 0

def intOr (raw : String) (fallback : Int) : Int :=
  match (trim raw).toList with
  | '-' :: cs => if !cs.isEmpty && cs.all isDigit then -(digitsValue cs : Int) else fallback
  | cs => if !cs.isEmpty && cs.all isDigit then digitsValue cs else fallback

/-! ## Evidence -/

/-- `/[\u0000-\u001f\u007f-\u009f\u2028\u2029]/`. -/
def isCellBreak (c : Char) : Bool :=
  c.toNat ≤ 0x1F || (0x7F ≤ c.toNat && c.toNat ≤ 0x9F) || c.toNat = 0x2028 || c.toNat = 0x2029

/-- Runs of cell breaks as one space each; `inRun` after a cell break. -/
def collapseBreaks : Bool → List Char → List Char
  | _, [] => []
  | inRun, c :: cs =>
    if isCellBreak c then if inRun then collapseBreaks true cs else ' ' :: collapseBreaks true cs
    else c :: collapseBreaks false cs

def escapeCellChar (c : Char) : List Char :=
  if c = '\\' then "\\\\".toList
  else if c = '|' then "\\|".toList
  else if c = Char.ofNat 0x60 then ['\\', c]
  else if c = '&' then "&amp;".toList
  else if c = '<' then "&lt;".toList
  else if c = '>' then "&gt;".toList
  else [c]

def escapeTableCell (text : String) : String :=
  String.ofList ((collapseBreaks false text.toList).flatMap escapeCellChar)

def renderRow (check : ExternalCheck) : String :=
  "| " ++ escapeTableCell check.name ++ " | " ++ escapeTableCell (check.conclusion.getD check.state) ++ " |"

def renderRows (checks : List ExternalCheck) : String := "\n".intercalate (checks.map renderRow)

def evidenceBody (sha finalState rows : String) : String :=
  "_Other checks on commit " ++ sha ++ " (" ++ finalState ++ "): shown for context only — these checks gate the merge on " ++
    "their own. A check conclusion is not by itself a review finding; do not raise blockers or majors whose only basis " ++
    "is a row below._\n" ++ "\n| Check | State |\n| --- | --- |\n" ++ rows ++ "\n"

/-! ## The wait -/

structure WaitConfig where
  sha : String
  checksFile : String
  skipOnTimeout : Bool
  timeoutSec : Int
  intervalSec : Int
  startedAt : Int

def WaitConfig.deadline (cfg : WaitConfig) : Int := cfg.startedAt + cfg.timeoutSec

structure WaitState where
  /-- The last reading of the clock, or the end of the sleep after it. -/
  time : Int
  readings : Nat
  reads : Nat
  checks : Option (List ExternalCheck)
  elapsed : Int
  outputs : List String
  /-- When each sleep began, and for how long it was asked. -/
  sleeps : List (Int × Int)
  evidence : Option String

namespace WaitState

variable (w : World)

/-- A reading of the clock, which is the `time` of the new state. -/
def nowSec (s : WaitState) : WaitState :=
  { s with time := s.time + w.drift s.readings, readings := s.readings + 1 }

/-- An answer of the adapter, as the new `checks`. -/
def externalChecks (s : WaitState) : WaitState := { s with checks := w.answers s.reads, reads := s.reads + 1 }

def sleep (seconds : Int) (s : WaitState) : WaitState :=
  { s with time := s.time + seconds, sleeps := s.sleeps ++ [(s.time, seconds)] }

def output (line : String) (s : WaitState) : WaitState := { s with outputs := s.outputs ++ [line] }

def renderEvidence (cfg : WaitConfig) (finalState : String) (s : WaitState) : WaitState :=
  let rows := renderRows (s.checks.getD [])
  if cfg.checksFile = "" || rows = "" then s else { s with evidence := some (evidenceBody cfg.sha finalState rows) }

/-- `deadlineSleep`. -/
def deadlineSleep (cfg : WaitConfig) (s : WaitState) : WaitState :=
  let s := s.nowSec w
  let remaining := cfg.deadline - s.time
  if remaining < 1 then s
  else if remaining < cfg.intervalSec then { s.sleep remaining with elapsed := s.elapsed + remaining }
  else { s.sleep cfg.intervalSec with elapsed := s.elapsed + cfg.intervalSec }

/-- `finalize`. -/
def finalize (cfg : WaitConfig) (state : String) (s : WaitState) : Nat × WaitState :=
  (0, ((s.renderEvidence cfg state).output ("ci_status_final=" ++ state)).output "ci_status_skipped=false")

/-- The exits at the deadline. -/
def timeout (cfg : WaitConfig) (s : WaitState) : Nat × WaitState :=
  if cfg.skipOnTimeout then (1, (s.renderEvidence cfg CI_EVIDENCE_TIMEOUT_STATE).output "ci_status_skipped=true")
  else (2, s.output "ci_status_skipped=true")

/-- What follows a read: the exit code with the last state, or the state in which the loop goes on. -/
def settle (cfg : WaitConfig) (s : WaitState) : (Nat × WaitState) ⊕ WaitState :=
  match s.checks with
  | none => .inr (s.deadlineSleep w cfg)
  | some checks =>
    if 0 < (checks.filter fun check => check.state = "failure").length then .inl (s.finalize cfg "failure")
    else if checks.length = 0 then
      if cfg.intervalSec * 2 ≤ s.elapsed then .inl (s.finalize cfg "none") else .inr (s.deadlineSleep w cfg)
    else if (checks.filter fun check => check.state = "pending").length = 0 then .inl (s.finalize cfg "success")
    else .inr (s.deadlineSleep w cfg)

/-- The time of a read is counted as elapsed. -/
def read (s : WaitState) : WaitState :=
  let before := s.nowSec w
  let after := (before.externalChecks w).nowSec w
  { after with elapsed := after.elapsed + (after.time - before.time) }

/-- The body of the loop. -/
def poll (cfg : WaitConfig) (s : WaitState) : (Nat × WaitState) ⊕ WaitState :=
  if cfg.timeoutSec ≤ s.elapsed then .inl (s.timeout cfg)
  else
    let s := s.nowSec w
    if cfg.deadline ≤ s.time then .inl (s.timeout cfg) else (s.read w).settle w cfg

end WaitState

/-- The configuration of a wait that begins at a reading of the clock. -/
def waitConfig (deps : CiWaitDeps) (startedAt : Int) : WaitConfig where
  sha := if deps.env "PR_HEAD_SHA" = "" then deps.boundedHeadSha else deps.env "PR_HEAD_SHA"
  checksFile := deps.env "CI_CHECKS_FILE"
  skipOnTimeout := decide (deps.toLowerCase (deps.envOr "CI_SKIP_ON_TIMEOUT" "true") = "true")
  timeoutSec := intOr (deps.envOr "CI_TIMEOUT_SEC" "300") 300
  intervalSec := intOr (deps.envOr "CI_INTERVAL_SEC" "15") 15
  startedAt

def initialState (w : World) : WaitState := ⟨w.start, 0, 0, none, 0, [], [], none⟩

/-- The state at the first reading of the clock, which the deadline is counted from. -/
def startState (w : World) : WaitState := (initialState w).nowSec w

/-- The exit code and the last state, when the loop ends within `fuel` repetitions. -/
def runCiWait (deps : CiWaitDeps) (w : World) (fuel : Nat) : Option (Nat × WaitState) :=
  if deps.envOr "CI_STATUS_CHECK" "false" ≠ "true" then some (0, (initialState w).output "ci_status_skipped=true")
  else if deps.envEither "GH_TOKEN" "GITHUB_TOKEN" = "" ∨ deps.envEither "REPO" "GITHUB_REPOSITORY" = "" ∨
      deps.env "PR_NUMBER" = "" then
    some (0, (initialState w).output "ci_status_skipped=true")
  else if deps.platform = none then some (2, initialState w)
  else if (waitConfig deps (startState w).time).sha = "" then some (2, startState w)
  else loop (WaitState.poll w (waitConfig deps (startState w).time)) fuel (startState w)

end PrReviewer.Gates
