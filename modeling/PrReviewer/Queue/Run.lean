import PrReviewer.Queue.Scheduler

/-!
# Runs of the controller over one store

An `Event` is what makes the controller run: an operation, or a promise that settles. A `Label` is an
event with the clock reading of its stretch, the store's outcome, and whether the process dies in it:
`crash = some k` lets the first `k` effects of the stretch happen and then starts a fresh process over
the last committed snapshot (`boot`); `some 0` is a death before the stretch did anything.

`run` starts from an empty store. Every label is allowed in every state; an event whose promise is not
pending does nothing, and so does a call that the code refuses. So an arbitrary list of labels is an
arbitrary interleaving of operations, callbacks and crashes, and what holds of every list holds of
every run.
-/

open Js

namespace PrReviewer.Queue

inductive Event where
  | enqueue (job : Value)
  | tick
  | heartbeat (jobId owner : String)
  | resolveRecovered (jobId : String) (outcome : ExecutionOutcome)
  | adoptRecovered (jobId owner : String)
  | executorSettled (jobId token : String) (outcome : ExecutionOutcome)
  | settleDone (jobId token : String)
  | publishSettled (call : PublishCall) (published : Bool)
  | shutdown (drainMs : Number)
  | drainStep (drain : Drain)
  | recover

/-- The stretch that an event starts. -/
def exec (o : SchedulerOptions) (store : StoreOutcome) (now : Number) : Event → Op Unit
  | .enqueue job => do let _ ← enqueue o store now job
  | .tick => tick o store now
  | .heartbeat jobId owner => do let _ ← heartbeat o store now jobId owner
  | .resolveRecovered jobId outcome => do let _ ← resolveRecovered o store now jobId outcome
  | .adoptRecovered jobId owner => do let _ ← adoptRecovered o store now jobId owner
  | .executorSettled jobId token outcome => executorSettled o store now jobId token outcome
  | .settleDone jobId token => settleDone store jobId token
  | .publishSettled call published => publishSettled o store call published
  | .shutdown drainMs => shutdown o store now drainMs
  | .drainStep d => drainStep o store now d
  | .recover => do let _ ← recover o store now

structure Label where
  event : Event
  now : Number
  store : StoreOutcome
  crash : Option Nat

/-- The history after a stretch that began with history `log` was cut after `k` effects. -/
def cutLog (k : Nat) (log log' : List Effect) : List Effect :=
  log'.drop (log'.length - log.length - k)

def step (o : SchedulerOptions) (c : Controller) (l : Label) : Controller :=
  let c' := (exec o l.store l.now l.event).final c
  match l.crash with
  | none => c'
  | some k => boot (cutLog k c.log c'.log)

def run (o : SchedulerOptions) (c : Controller) (ls : List Label) : Controller :=
  ls.foldl (step o) c

/-- A process over an empty store. -/
def fresh : Controller := boot []

@[simp] theorem run_nil (o : SchedulerOptions) (c : Controller) : run o c [] = c := rfl

@[simp] theorem run_cons (o : SchedulerOptions) (c : Controller) (l : Label) (ls : List Label) :
    run o c (l :: ls) = run o (step o c l) ls := rfl

/-- A name for the proof that the conditions on labels below are decided with. -/
theorem lawfulBEq_pairs : LawfulBEq (String × String) := inferInstance

theorem run_append (o : SchedulerOptions) (c : Controller) (ls ms : List Label) :
    run o c (ls ++ ms) = run o (run o c ls) ms := List.foldl_append

/-- Each label of a run from `c` satisfies `P` in the state in which it comes. -/
def Along (o : SchedulerOptions) (P : Controller → Label → Prop) :
    Controller → List Label → Prop
  | _, [] => True
  | c, l :: ls => P c l ∧ Along o P (step o c l) ls

instance decidableAlong (o : SchedulerOptions) (P : Controller → Label → Prop)
    [∀ c l, Decidable (P c l)] : ∀ c ls, Decidable (Along o P c ls)
  | _, [] => inferInstanceAs (Decidable True)
  | c, l :: ls =>
    have := decidableAlong o P (step o c l) ls
    inferInstanceAs (Decidable (P c l ∧ Along o P (step o c l) ls))

variable {o : SchedulerOptions} {c : Controller} {ls : List Label}

theorem along_of_forall {P : Controller → Label → Prop} (h : ∀ c l, P c l)
    (c : Controller) (ls : List Label) : Along o P c ls := by
  induction ls generalizing c with
  | nil => exact trivial
  | cons l ls ih => exact ⟨h c l, ih _⟩

theorem along_append {P : Controller → Label → Prop}
    {ms : List Label} :
    Along o P c (ls ++ ms) ↔ Along o P c ls ∧ Along o P (run o c ls) ms := by
  induction ls generalizing c with
  | nil => exact (true_and _).symm ▸ Iff.rfl
  | cons l ls ih => rw [List.cons_append, Along, ih, ← and_assoc]; rfl

theorem Along.and {P Q : Controller → Label → Prop}
    (hp : Along o P c ls) (hq : Along o Q c ls) :
    Along o (fun c l => P c l ∧ Q c l) c ls := by
  induction ls generalizing c with
  | nil => exact trivial
  | cons l ls ih => exact ⟨⟨hp.1, hq.1⟩, ih hp.2 hq.2⟩

theorem along_of_mem {P : Label → Prop}
    (h : ∀ l ∈ ls, P l) (c : Controller) : Along o (fun _ l => P l) c ls := by
  induction ls generalizing c with
  | nil => exact trivial
  | cons l ls ih => exact ⟨h l List.mem_cons_self, ih (fun x hx => h x (List.mem_cons_of_mem _ hx)) _⟩

/-- Along a run the states are states of runs. -/
theorem along_reached (o : SchedulerOptions) (pre ls : List Label) :
    Along o (fun c _ => ∃ ms, c = run o fresh ms) (run o fresh pre) ls := by
  induction ls generalizing pre with
  | nil => exact trivial
  | cons l ls ih =>
    have h := ih (pre ++ [l])
    rw [run_append] at h
    exact ⟨⟨pre, rfl⟩, h⟩

/-- **Runs.** What every step keeps holds at the end of the run. -/
theorem run_induct {I : Controller → Prop} {P : Controller → Label → Prop}
    (h0 : I c) (hP : Along o P c ls)
    (hstep : ∀ c l, I c → P c l → I (step o c l)) : I (run o c ls) := by
  induction ls generalizing c with
  | nil => exact h0
  | cons l ls ih => exact ih (hstep c l h0 hP.1) hP.2

/-! ## A small configuration -/

/-- A review job of pull request 1, for the concrete runs. -/
def exampleJob (jobId : String) : ReviewJob where
  jobId
  kind := .review
  trigger := .webhook
  reason := "opened"
  platform := .github
  installationId := ""
  repoFullName := "o/r"
  prNumber := 1
  prId := 0
  headSha := "abcdef0"
  baseSha := ""
  configFingerprint := ""
  nonce := ""
  adoptionEpoch := ""
  eventReference := ""
  forgeIntegration := ""
  fork := false
  deadlineAtMs := 0
  runId := ""

/-- One worker, no settle window, leases of 10 ms, two attempts without backoff, a publisher. -/
def exampleOptions : SchedulerOptions where
  maxConcurrent := 1
  settleWindowMs := 0
  leaseTtlMs := 10
  maxAttempts := 2
  retryBaseMs := 0
  retryMaxMs := 0
  scopeKeyOf := none
  scopeLimitOf := none
  publisher := true
  maxConcurrent_pos := Nat.one_pos
  settleWindow_ok := by decide
  leaseTtl_ok := by decide
  maxAttempts_pos := Nat.two_pos
  retryBase_ok := by decide
  retryMax_ok := by decide

/-- An event at `now` with a store that commits and a process that lives on. -/
def Event.at (e : Event) (now : Number) : Label := ⟨e, now, .committed, none⟩

/-- The process dies between two stretches, at `now`. -/
def dies (now : Number) : Label := ⟨.tick, now, .committed, some 0⟩

def enqueueOf (jobId : String) : Event := .enqueue (jobValue (exampleJob jobId))

end PrReviewer.Queue
