import PrReviewer.Gates.CiWait
import Mathlib.Tactic.Linarith

/-!
# What the CI gate reports

- **Progress** (`deadlineSleep_progress`): a repetition that does not end the loop has slept for at least a second, or
  the deadline has come.
- **One repetition** (`settle_end`, `settle_again`): what it reports is what its read has shown.
-/

namespace PrReviewer.Gates

open Js List

variable {w : World} {cfg : WaitConfig} {s s' : WaitState}

/-- The answer of the last read, when there has been one. -/
def WaitState.lastRead (w : World) (s : WaitState) : Option (Option (List ExternalCheck)) :=
  if s.reads = 0 then none else some (w.answers (s.reads - 1))

/-- A `ci_status_skipped` line. -/
def isSkippedLine (line : String) : Bool := "ci_status_skipped=".toList.isPrefixOf line.toList

/-- What the lines that a wait has written say of its last read, its sleeps and its exit code. -/
structure Reported (w : World) (cfg : WaitConfig) (r : Nat × WaitState) : Prop where
  success : "ci_status_final=success" ∈ r.2.outputs → ∃ checks, r.2.lastRead w = some (some checks) ∧ checks ≠ [] ∧
    ∀ check ∈ checks, check.state ≠ "pending" ∧ check.state ≠ "failure"
  failure : "ci_status_final=failure" ∈ r.2.outputs → ∃ checks, r.2.lastRead w = some (some checks) ∧
    ∃ check ∈ checks, check.state = "failure"
  none : "ci_status_final=none" ∈ r.2.outputs → r.2.lastRead w = some (some []) ∧
    cfg.startedAt + 2 * cfg.intervalSec ≤ r.2.time
  unknown : r.2.lastRead w = some Option.none → ∀ state, "ci_status_final=" ++ state ∉ r.2.outputs
  sleeps : ∀ sleep ∈ r.2.sleeps, sleep.1 + sleep.2 ≤ cfg.deadline
  skipped : r.2.outputs.filter isSkippedLine =
    [if r.1 = 1 ∨ r.1 = 2 then "ci_status_skipped=true" else "ci_status_skipped=false"]

/-- What holds before every repetition: nothing is written, no sleep goes past the deadline, and no more than the time
since the start is counted as elapsed. -/
structure Waiting (cfg : WaitConfig) (s : WaitState) : Prop where
  outputs : s.outputs = []
  sleeps : ∀ sleep ∈ s.sleeps, sleep.1 + sleep.2 ≤ cfg.deadline
  elapsed_le : s.elapsed ≤ s.time - cfg.startedAt
  elapsed_nonneg : 0 ≤ s.elapsed

/-- The repetitions that are left. -/
def remaining (cfg : WaitConfig) (s : WaitState) : Nat :=
  if cfg.deadline ≤ s.time then 0 else (cfg.timeoutSec - s.elapsed).toNat + 1

/-! ## Steps -/

theorem time_le_nowSec (w : World) (s : WaitState) : s.time ≤ (s.nowSec w).time :=
  Int.le_add_of_nonneg_right (Int.natCast_nonneg _)

theorem Waiting.nowSec (h : Waiting cfg s) (w : World) : Waiting cfg (s.nowSec w) := by
  have hle := time_le_nowSec w s
  refine ⟨h.outputs, h.sleeps, ?_, h.elapsed_nonneg⟩
  have helapsed := h.elapsed_le
  change s.elapsed ≤ _
  omega

/-- After a read, the time that has been counted has passed. -/
theorem Waiting.read (h : Waiting cfg s) (w : World) : Waiting cfg (s.read w) ∧ s.elapsed ≤ (s.read w).elapsed ∧
    (s.read w).checks = w.answers s.reads ∧ (s.read w).reads = s.reads + 1 := by
  have hfirst := time_le_nowSec w s
  have hsecond := time_le_nowSec w ((s.nowSec w).externalChecks w)
  have helapsed := h.elapsed_le
  have hnonneg := h.elapsed_nonneg
  have htime : (s.read w).time = (((s.nowSec w).externalChecks w).nowSec w).time := rfl
  have hcount : (s.read w).elapsed = s.elapsed + ((s.read w).time - (s.nowSec w).time) := rfl
  have hafter : ((s.nowSec w).externalChecks w).time = (s.nowSec w).time := rfl
  rw [hafter] at hsecond
  exact ⟨⟨h.outputs, h.sleeps, by omega, by omega⟩, by omega, rfl, rfl⟩

/-- A wait before the deadline sleeps within it, for at least a second, unless the deadline has come. -/
theorem Waiting.deadlineSleep (h : Waiting cfg s) (hinterval : 1 ≤ cfg.intervalSec) (w : World) :
    Waiting cfg (s.deadlineSleep w cfg) ∧
      (cfg.deadline ≤ (s.deadlineSleep w cfg).time ∨ s.elapsed + 1 ≤ (s.deadlineSleep w cfg).elapsed) := by
  have hnow := h.nowSec w
  have helapsed : (s.nowSec w).elapsed = s.elapsed := rfl
  have hsleep : ∀ seconds, 1 ≤ seconds → (s.nowSec w).time + seconds ≤ cfg.deadline →
      Waiting cfg { (s.nowSec w).sleep seconds with elapsed := (s.nowSec w).elapsed + seconds } := by
    intro seconds hpos hle
    refine ⟨hnow.outputs, fun sleep hmem => ?_, ?_, ?_⟩
    · rcases mem_append.mp hmem with hold | hnew
      · exact hnow.sleeps sleep hold
      · rw [mem_singleton.mp hnew]
        exact hle
    · have := hnow.elapsed_le
      change (s.nowSec w).elapsed + seconds ≤ (s.nowSec w).time + seconds - cfg.startedAt
      omega
    · have := hnow.elapsed_nonneg
      change 0 ≤ (s.nowSec w).elapsed + seconds
      omega
  rw [WaitState.deadlineSleep]
  split_ifs with hpast hshort
  · exact ⟨hnow, .inl (by omega)⟩
  · refine ⟨hsleep _ (by omega) (by omega), .inr ?_⟩
    change s.elapsed + 1 ≤ (s.nowSec w).elapsed + (cfg.deadline - (s.nowSec w).time)
    omega
  · refine ⟨hsleep _ hinterval (by omega), .inr ?_⟩
    change s.elapsed + 1 ≤ (s.nowSec w).elapsed + cfg.intervalSec
    omega

/-! ## One repetition -/

/-- The evidence file is all that rendering it changes. -/
theorem renderEvidence_eq (cfg : WaitConfig) (state : String) (s : WaitState) :
    ∃ evidence, s.renderEvidence cfg state = { s with evidence } := by
  rw [WaitState.renderEvidence]
  split
  · exact ⟨s.evidence, rfl⟩
  · exact ⟨_, rfl⟩

theorem isSkippedLine_final (state : String) : isSkippedLine ("ci_status_final=" ++ state) = false := by
  rw [isSkippedLine, String.toList_append]
  rfl

theorem finalLine_ne {line : String} (h : isSkippedLine line = true) (state : String) : "ci_status_final=" ++ state ≠ line := by
  rintro rfl
  rw [isSkippedLine_final] at h
  cases h

/-- An exit at the deadline reports nothing of the checks. -/
theorem Waiting.timeout (h : Waiting cfg s) (w : World) : Reported w cfg (s.timeout cfg) := by
  obtain ⟨code, s', heq, houtputs, hsleeps, hcode⟩ : ∃ code s', s.timeout cfg = (code, s') ∧
      s'.outputs = ["ci_status_skipped=true"] ∧ s'.sleeps = s.sleeps ∧ (code = 1 ∨ code = 2) := by
    rw [WaitState.timeout]
    split
    · obtain ⟨evidence, hevidence⟩ := renderEvidence_eq cfg CI_EVIDENCE_TIMEOUT_STATE s
      refine ⟨1, _, rfl, ?_, ?_, .inl rfl⟩
      · rw [hevidence]
        exact congrArg (· ++ ["ci_status_skipped=true"]) h.outputs
      · rw [hevidence]
        rfl
    · exact ⟨2, _, rfl, congrArg (· ++ ["ci_status_skipped=true"]) h.outputs, rfl, .inr rfl⟩
  have hfinal : ∀ state, "ci_status_final=" ++ state ∉ s'.outputs := by
    intro state hmem
    rw [houtputs] at hmem
    exact finalLine_ne (by decide) state (mem_singleton.mp hmem)
  rw [heq]
  refine ⟨fun hmem => absurd hmem (hfinal "success"), fun hmem => absurd hmem (hfinal "failure"),
    fun hmem => absurd hmem (hfinal "none"), fun _ => hfinal, ?_, ?_⟩
  · rw [hsleeps]
    exact h.sleeps
  · rw [houtputs, if_pos hcode]
    rfl

/-- The lines of an exit after a read. -/
theorem finalize_outputs (h : Waiting cfg s) (state : String) :
    (s.finalize cfg state).1 = 0 ∧ (s.finalize cfg state).2.sleeps = s.sleeps ∧
      (s.finalize cfg state).2.lastRead w = s.lastRead w ∧ (s.finalize cfg state).2.time = s.time ∧
      (s.finalize cfg state).2.outputs = ["ci_status_final=" ++ state, "ci_status_skipped=false"] := by
  obtain ⟨evidence, hevidence⟩ := renderEvidence_eq cfg state s
  rw [WaitState.finalize, hevidence]
  refine ⟨rfl, rfl, rfl, rfl, ?_⟩
  change s.outputs ++ _ ++ _ = _
  rw [h.outputs]
  rfl

theorem finalLine_inj {state state' : String} (h : "ci_status_final=" ++ state = "ci_status_final=" ++ state') :
    state = state' := by
  have hlist := congrArg String.toList h
  rw [String.toList_append, String.toList_append] at hlist
  exact String.toList_inj.mp (append_cancel_left hlist)

/-- An exit after a read of `checks`, when they show what it reports. -/
theorem Waiting.finalize (h : Waiting cfg s) {checks : List ExternalCheck} (hread : s.lastRead w = some (some checks))
    {state : String}
    (hsuccess : state = "success" → checks ≠ [] ∧ ∀ check ∈ checks, check.state ≠ "pending" ∧ check.state ≠ "failure")
    (hfailure : state = "failure" → ∃ check ∈ checks, check.state = "failure")
    (hnone : state = "none" → checks = [] ∧ cfg.startedAt + 2 * cfg.intervalSec ≤ s.time) :
    Reported w cfg (s.finalize cfg state) := by
  obtain ⟨hcode, hsleeps, hlast, htime, houtputs⟩ := finalize_outputs (w := w) h state
  rw [hread] at hlast
  have hstate : ∀ {other : String}, "ci_status_final=" ++ other ∈ (s.finalize cfg state).2.outputs →
      state = other := by
    intro other hmem
    rw [houtputs] at hmem
    rcases mem_cons.mp hmem with heq | hmem
    · exact (finalLine_inj heq).symm
    · exact absurd (mem_singleton.mp hmem) (finalLine_ne (by decide) other)
  refine ⟨fun hmem => ?_, fun hmem => ?_, fun hmem => ?_, fun hunknown => ?_, ?_, ?_⟩
  · exact ⟨checks, hlast, hsuccess (hstate hmem)⟩
  · exact ⟨checks, hlast, hfailure (hstate hmem)⟩
  · obtain ⟨hnil, hpassed⟩ := hnone (hstate hmem)
    exact ⟨hnil ▸ hlast, htime ▸ hpassed⟩
  · rw [hlast] at hunknown
    cases hunknown
  · rw [hsleeps]
    exact h.sleeps
  · rw [houtputs, hcode]
    simp only [filter_cons, filter_nil, isSkippedLine_final]
    rfl

/-- What follows a read ends the loop with what the read has shown. -/
theorem Waiting.settle (h : Waiting cfg s) (hread : s.lastRead w = some s.checks) {r : Nat × WaitState}
    (hr : s.settle w cfg = .inl r) : Reported w cfg r := by
  rw [WaitState.settle] at hr
  cases hchecks : s.checks with
  | none =>
    rw [hchecks] at hr
    cases hr
  | some checks =>
    rw [hchecks] at hr hread
    dsimp only at hr
    split_ifs at hr with hfailed hempty hwaited hpending
    · cases hr
      obtain ⟨check, hcheck⟩ := exists_mem_of_length_pos hfailed
      obtain ⟨hmem, hstate⟩ := mem_filter.mp hcheck
      exact h.finalize hread (fun h => absurd h (by decide)) (fun _ => ⟨check, hmem, by simpa using hstate⟩)
        fun h => absurd h (by decide)
    · cases hr
      have helapsed := h.elapsed_le
      exact h.finalize hread (fun h => absurd h (by decide)) (fun h => absurd h (by decide))
        fun _ => ⟨length_eq_zero_iff.mp hempty, by omega⟩
    · cases hr
      refine h.finalize hread (fun _ => ⟨fun hnil => hempty (by rw [hnil]; rfl), fun check hcheck => ⟨?_, ?_⟩⟩)
        (fun h => absurd h (by decide)) fun h => absurd h (by decide)
      · intro hstate
        have hnone := filter_eq_nil_iff.mp (length_eq_zero_iff.mp hpending) check hcheck
        exact hnone (by simpa using hstate)
      · intro hstate
        have hnone := filter_eq_nil_iff.mp (length_eq_zero_iff.mp (Nat.eq_zero_of_not_pos hfailed)) check hcheck
        exact hnone (by simpa using hstate)

/-- Where the loop goes on it has slept until the deadline. -/
theorem settle_again (hr : s.settle w cfg = .inr s') : s' = s.deadlineSleep w cfg := by
  rw [WaitState.settle] at hr
  split at hr
  · cases hr
    rfl
  · split_ifs at hr
    all_goals
      cases hr
      rfl

theorem Waiting.poll_end (h : Waiting cfg s) {r : Nat × WaitState} (hr : s.poll w cfg = .inl r) : Reported w cfg r := by
  simp only [WaitState.poll] at hr
  split_ifs at hr with helapsed hdeadline
  · cases hr
    exact h.timeout w
  · cases hr
    exact (h.nowSec w).timeout w
  · obtain ⟨hwaiting, -, hchecks, hreads⟩ := (h.nowSec w).read w
    refine hwaiting.settle ?_ hr
    rw [WaitState.lastRead, hreads, hchecks]
    rfl

theorem Waiting.poll_again (h : Waiting cfg s) (hinterval : 1 ≤ cfg.intervalSec) (hr : s.poll w cfg = .inr s') :
    Waiting cfg s' ∧ remaining cfg s' < remaining cfg s := by
  simp only [WaitState.poll] at hr
  split_ifs at hr with helapsed hdeadline
  obtain ⟨hwaiting, hcount, -, -⟩ := (h.nowSec w).read w
  obtain rfl := settle_again hr
  obtain ⟨hslept, hprogress⟩ := hwaiting.deadlineSleep hinterval w
  have hnow := time_le_nowSec w s
  have hcount : s.elapsed ≤ ((s.nowSec w).read w).elapsed := hcount
  refine ⟨hslept, ?_⟩
  rw [remaining, remaining, if_neg (by omega : ¬ cfg.deadline ≤ s.time)]
  split_ifs with hpast
  · exact Nat.succ_pos _
  · have := hprogress.resolve_left hpast
    omega

/-! ## The run -/

theorem waiting_start (deps : CiWaitDeps) (w : World) : Waiting (waitConfig deps (startState w).time) (startState w) := by
  refine ⟨rfl, fun _ h => absurd h not_mem_nil, ?_, le_refl _⟩
  change (0 : Int) ≤ (startState w).time - (startState w).time
  omega

/-- With a head and an interval of at least a second, the wait ends whatever the reads answer and however the clock
goes, and reports what its last read has shown. -/
theorem runCiWait_reported (deps : CiWaitDeps) (w : World) (hcheck : deps.envOr "CI_STATUS_CHECK" "false" = "true")
    (htoken : deps.envEither "GH_TOKEN" "GITHUB_TOKEN" ≠ "") (hrepo : deps.envEither "REPO" "GITHUB_REPOSITORY" ≠ "")
    (hnumber : deps.env "PR_NUMBER" ≠ "") (hplatform : deps.platform ≠ none)
    (hsha : (waitConfig deps (startState w).time).sha ≠ "")
    (hinterval : 1 ≤ (waitConfig deps (startState w).time).intervalSec) :
    ∃ r, (∃ fuel₀, ∀ fuel, fuel₀ ≤ fuel → runCiWait deps w fuel = some r) ∧
      Reported w (waitConfig deps (startState w).time) r := by
  have hrun : ∀ fuel, runCiWait deps w fuel =
      loop (WaitState.poll w (waitConfig deps (startState w).time)) fuel (startState w) := by
    intro fuel
    have hidentified : ¬ (deps.envEither "GH_TOKEN" "GITHUB_TOKEN" = "" ∨
        deps.envEither "REPO" "GITHUB_REPOSITORY" = "" ∨ deps.env "PR_NUMBER" = "") := by
      rintro (h | h | h)
      · exact htoken h
      · exact hrepo h
      · exact hnumber h
    rw [runCiWait, if_neg (not_not_intro hcheck), if_neg hidentified, if_neg hplatform, if_neg hsha]
  obtain ⟨r, hend, hreported⟩ := loop_spec (fun hs hr => hs.poll_end hr) (fun hs hr => hs.poll_again hinterval hr)
    (waiting_start deps w) (Nat.lt_succ_self _)
  exact ⟨r, ⟨_, fun fuel hfuel => (hrun fuel).trans (loop_mono hend hfuel)⟩, hreported⟩

/-! ## A wait that succeeds -/

/-- The variables of a wait of ten seconds for the head `abc`. -/
def tenSeconds (key : String) : String :=
  ((([("CI_STATUS_CHECK", "true"), ("GH_TOKEN", "t"), ("REPO", "o/r"), ("PR_NUMBER", "1"), ("PR_HEAD_SHA", "abc"),
    ("CI_TIMEOUT_SEC", "10"), ("CI_INTERVAL_SEC", "4")] : List (String × String)).lookup key).getD "")

/-- A clock that stands still but for sleeps, and a check that is pending at first. -/
def pendingFirst : World :=
  ⟨100, fun _ => 0, fun n => some [⟨"build", if n = 0 then "pending" else "success", none⟩]⟩

theorem pendingFirst_reported : ∃ r, (∃ fuel₀, ∀ fuel, fuel₀ ≤ fuel →
      runCiWait ⟨tenSeconds, some "github", "", id⟩ pendingFirst fuel = some r) ∧
    Reported pendingFirst (waitConfig ⟨tenSeconds, some "github", "", id⟩ (startState pendingFirst).time) r :=
  runCiWait_reported _ _ (by decide) (by decide) (by decide) (by decide) (by decide) (by decide) (by decide)

end PrReviewer.Gates
