import PrReviewer.Controller.Daemon
import PrReviewer.Queue.Run
import PrReviewer.State.Leases

/-!
# Retired attempts and their runs

What becomes of the run of an attempt that the queue has retired.

- A run that has ended never changes (`ended_step`), whatever the interleaving.
- A pass remembers a run as settled after one try (`settledRuns`). `Settling` is what the remembering takes for granted:
  the pass finds the run ended, or not created while nobody is left to create it. Along runs that meet it every
  remembered run is `Marked`, and a pass that ends remembers all retired attempts of its snapshot.
-/

open Js List

namespace PrReviewer.Controller.Daemon

open GenerationLedger (Delivery transportError)
open GenerationLedger.System (arrived)
open Queue (JobRecord JobLifecycleState isTerminalState)
open State

/-! ## Runs at the store -/

/-- The runs that a call can create. -/
def created : StoreCall → List String
  | .apply batch => batch.filterMap fun
      | .createRun record => (validateRun record).map (·.runId)
      | _ => none
  | _ => []

/-- The run has ended. -/
def ended (t : StateTables) (runId : String) : Bool := (getRun t runId).any fun run => isTerminalState run.state

section Store

variable {payloadOk : String → Bool} {t t' : StateTables} {w : World} {runId : String}

/-- A write leaves the tables, or it is a call that the store performs. -/
theorem write_cases (payloadOk : String → Bool) (c : StoreCall) (delivery : Delivery) (w : World) :
    w.write payloadOk c delivery = ((w.write payloadOk c delivery).1, w) ∨
      ∃ answer t, delivery ≠ .requestLost ∧ perform payloadOk w.tables c = .ok (answer, t) ∧
        w.write payloadOk c delivery = (arrived delivery (.ok answer), { w with tables := t }) := by
  unfold World.write
  split
  · exact .inl rfl
  next hdelivery =>
  cases hperform : perform payloadOk w.tables c with
  | error e => exact .inl rfl
  | ok answer => exact .inr ⟨answer.1, answer.2, hdelivery, rfl, rfl⟩

variable {c : StoreCall} {answer : Bool}

theorem step_of_perform (h : perform payloadOk t c = .ok (answer, t')) :
    State.step payloadOk t c = t' := by
  rw [State.step, h]

/-- A run that has ended is left alone. -/
theorem ended_perform (h : perform payloadOk t c = .ok (answer, t')) {run : RunRecord}
    (hrun : getRun t runId = some run) (hterminal : isTerminalState run.state = true) : getRun t' runId = some run := by
  have hreaches : Reaches (t.runs.get? runId) (eventsOf payloadOk runId t c)
      ((State.step payloadOk t c).runs.get? runId) := reaches_step c
  rw [step_of_perform h] at hreaches
  unfold getRun at hrun ⊢
  rw [hrun] at hreaches
  cases hrun' : t'.runs.get? runId with
  | none =>
    rw [hrun'] at hreaches
    exact hreaches.elim
  | some run' =>
    rw [hrun'] at hreaches
    cases hevents : eventsOf payloadOk runId t c with
    | nil =>
      rw [hevents] at hreaches
      exact congrArg some hreaches
    | cons e es =>
      rw [hevents] at hreaches
      obtain ⟨m, hfollows, -⟩ := hreaches
      rw [hfollows.not_terminal] at hterminal
      cases hterminal

theorem absent_wrote {m : StateMutation} (h : Wrote payloadOk t m t') (hrun : t.runs.get? runId = none)
    (hm : runId ∉ created (.apply [m])) : t'.runs.get? runId = none := by
  cases h with
  | @createRun v r valid fresh =>
    rw [Map.get?_set, if_neg]
    · exact hrun
    · rintro rfl
      simp [created, valid] at hm
  | @transitionRun runId' _ _ _ _ _ _ _ _ _ finite legal found state patched =>
    rw [Map.get?_set, if_neg]
    · exact hrun
    · rintro rfl
      rw [hrun] at found
      cases found
  | _ => exact hrun

theorem absent_batch {batch : List StateMutation} (h : applyBatch payloadOk t batch = .ok t')
    (hrun : t.runs.get? runId = none) (hc : runId ∉ created (.apply batch)) : t'.runs.get? runId = none := by
  unfold applyBatch at h
  induction batch generalizing t with
  | nil =>
    cases h
    exact hrun
  | cons m batch ih =>
    rw [foldlM_cons] at h
    obtain ⟨t₁, hm, h⟩ := Except.of_bind_ok h
    have happ : created (.apply (m :: batch)) = created (.apply [m]) ++ created (.apply batch) := by
      rw [created, created, created, ← filterMap_append]
      rfl
    rw [happ, mem_append, not_or] at hc
    exact ih h (absent_wrote (wrote_of_ok hm) hrun hc.1) hc.2

theorem absent_leased {owner : String} {nowMs ttlMs : Number} {b : Bool} {runId' : String}
    (h : Leased t runId' owner nowMs ttlMs b t') (hrun : t.runs.get? runId = none) : t'.runs.get? runId = none := by
  cases h with
  | refused => exact hrun
  | set found =>
    rw [Map.get?_set, if_neg]
    · exact hrun
    · rintro rfl
      rw [hrun] at found
      cases found

/-- A run that is not there is not there behind a call that does not create it. -/
theorem absent_perform (h : perform payloadOk t c = .ok (answer, t'))
    (hrun : getRun t runId = none) (hc : runId ∉ created c) : getRun t' runId = none := by
  cases c with
  | apply batch =>
    obtain ⟨t'', hbatch, heq⟩ := Except.of_map_ok h
    cases heq
    exact absent_batch hbatch hrun hc
  | claimRun => exact absent_leased (leased_of_claimRun h) hrun
  | heartbeatRun => exact absent_leased (leased_of_heartbeatRun h) hrun

end Store

/-! ## What the code calls -/

/-- A call that creates no run but those of `runIds`, and remembers none. -/
def Touches (runIds : List String) : Call → Prop
  | .store c => created c ⊆ runIds
  | .addSettled _ => False
  | _ => True

/-- Code that makes such calls only. -/
abbrev Within (runIds : List String) {α : Type} (p : Program α) : Prop :=
  Async.Obeys (E := PUnit) (fun _ c => Touches runIds c) p

section Within

variable {runIds : List String}

theorem within_ask {c : Call} (h : Touches runIds c) : Within runIds (ask c) := Async.Obeys.call fun _ => h

theorem within_caught {α : Type} {p : Program α} (h : Within runIds p) : Within runIds (caught p) :=
  .tryCatch (.bind h fun _ => .pure _) fun _ => .pure _

theorem within_hop {m : StateMutation} (h : created (.apply [m]) ⊆ runIds) : Within runIds (hop m) :=
  .tryCatch (.bind (within_ask h) fun _ => .pure _) fun _ => .ite (.pure _) (.throw _)

theorem within_walk (runId : String) (last : JobLifecycleState) (patch : RunTransitionPatch) (nowMs : Number)
    (source : JobLifecycleState) (path : List JobLifecycleState) :
    Within runIds (walk runId last patch nowMs source path) := by
  induction path generalizing source with
  | nil => exact .pure _
  | cons step path ih =>
    unfold walk
    exact .bind (within_hop (nil_subset _)) fun _ => .ite (ih step) (.pure _)

theorem within_mirrorRunTransition (runId : String) (target : JobLifecycleState) (nowMs : Number)
    (patch : RunTransitionPatch) : Within runIds (mirrorRunTransition runId target nowMs patch) := by
  unfold mirrorRunTransition
  refine .bind (within_ask trivial) fun run => ?_
  split
  · exact .pure _
  · refine .ite (.pure _) (.ite (.pure _) ?_)
    split
    · exact .pure _
    · exact within_walk _ _ _ _ _ _

theorem within_settleRunForOutcome (record : JobRecord) (request : ExecutionRequest)
    (outcome : Queue.ExecutionOutcome) : Within runIds (settleRunForOutcome record request outcome) := by
  unfold settleRunForOutcome
  refine .bind (within_ask trivial) fun nowMs => .bind (within_ask trivial) fun current => ?_
  dsimp only
  split
  · exact within_mirrorRunTransition _ _ _ _
  · exact .ite (within_mirrorRunTransition _ _ _ _) (within_mirrorRunTransition _ _ _ _)
  · exact within_mirrorRunTransition _ _ _ _

theorem within_failAttempt (record : JobRecord) (request : ExecutionRequest) (category : String) :
    Within runIds (failAttempt record request category) :=
  .bind (within_settleRunForOutcome _ _ _) fun _ => .pure _

theorem within_collectOutcome (record : JobRecord) (request : ExecutionRequest) :
    Within runIds (collectOutcome record request) := by
  refine .tryCatch (.bind (within_ask trivial) fun collected => ?_) fun e =>
    .bind (within_settleRunForOutcome _ _ _) fun _ => .throw _
  split
  · exact within_failAttempt _ _ _
  · exact .ite (within_failAttempt _ _ _) (.bind (within_settleRunForOutcome _ _ _) fun _ => .pure _)

/-- The only run that is created is that of the identity. -/
theorem within_startRunRecord (identity : RunAttemptIdentity) (nowMs : Number) (leaseOwner : String)
    (leaseTtlMs : Number) : Within [identity.runId] (startRunRecord identity nowMs leaseOwner leaseTtlMs) := by
  intro s h
  unfold startRunRecord
  cases hcreated : newRunRecord identity nowMs with
  | error e => trivial
  | ok r =>
    have hr : validRun r = true ∧ r.runId = identity.runId := by
      unfold newRunRecord at hcreated
      dsimp only at hcreated
      split at hcreated
      · cases hcreated
      split at hcreated
      · cases hcreated
      split at hcreated
      · next hvalid =>
        cases hcreated
        exact ⟨hvalid, rfl⟩
      · cases hcreated
    have hsub : created (.apply [.createRun (runValue r)]) ⊆ [identity.runId] := by
      simp [created, validateRun_runValue hr.1, hr.2]
    exact Async.Obeys.tryCatch (G := fun _ c => Touches [identity.runId] c)
      (.bind (within_ask (c := .store _) hsub) fun _ => .bind (within_ask (nil_subset _)) fun _ => .pure _)
      (fun _ => .ite (.pure _) (.throw _)) s h

theorem within_trackRunStart (runtime : Runtime) (record : JobRecord) (executorProfile : String) :
    Within [runIdOf record] (trackRunStart runtime record (requestOf record executorProfile)) :=
  .bind (within_ask trivial) fun _ =>
    within_startRunRecord (attemptIdentity runtime record (requestOf record executorProfile)) _ _ _

theorem within_runAttempt (runtime : Runtime) (record : JobRecord) :
    Within [runIdOf record] (runAttempt runtime record) := by
  unfold runAttempt
  have hbuild : Within [runIdOf record] (build record) := .ite (.throw _) (within_ask trivial)
  refine .bind (within_caught hbuild) fun built => ?_
  split
  · exact .pure _
  · refine .bind (within_trackRunStart _ _ _) fun _ => .bind (within_ask trivial) fun _ => .bind (within_mirrorRunTransition _ _ _ _) fun _ =>
        .bind (within_caught (within_ask trivial)) fun launched => ?_
    split
    · exact .bind (within_ask trivial) fun _ => .bind (within_mirrorRunTransition _ _ _ _) fun _ => .pure _
    · exact .bind (within_ask trivial) fun _ => .bind (within_mirrorRunTransition _ _ _ _) fun _ =>
        within_collectOutcome _ _

/-- An executor creates the run of its attempt at most. -/
theorem within_executorStart (runtime : Runtime) (record : JobRecord) :
    Within [runIdOf record] (executorStart runtime record) :=
  .bind (within_caught (within_runAttempt runtime record)) fun _ => .bind (within_ask trivial) fun _ => .lift _

theorem within_recordAttempt (jobId : String) (atMs : Number) (outcome : PublicationOutcome) (detail : String) :
    Within runIds (recordAttempt jobId atMs outcome detail) := within_ask (c := .store _) (nil_subset _)

theorem within_contentOf (stringify : Value → String) (secretShaped : String → Bool) (record : JobRecord)
    (existing : Option PublicationRecord) (nowMs : Number) :
    Within runIds (contentOf stringify secretShaped record existing nowMs) := by
  unfold contentOf
  split
  · exact .pure _
  unfold readPublicationArtifact
  refine .bind (within_ask trivial) fun envelope => ?_
  split
  · exact .pure _
  refine .ite (.pure _) (.ite (.pure _) (.ite (.pure _) (.bind (within_ask trivial) fun artifact => ?_)))
  split
  · exact .pure _
  · exact .pure _

theorem within_persist (record : PublicationRecord) (usage : List Value) : Within runIds (persist record usage) := by
  have hcreated :
      created (.apply (.putPublication (publicationValue record) :: usage.map .recordUsage)) ⊆ runIds := by
    simp [created]
  exact .tryCatch (.bind (within_ask (c := .store _) hcreated) fun _ => .pure _) fun _ => .pure _

theorem within_publishFresh (toLowerCase : String → String) (record : JobRecord) (persisted : PublicationRecord)
    (currentHead : String) (nowMs : Number) :
    Within runIds (publishFresh toLowerCase record persisted currentHead nowMs) := by
  have hwrite : Within runIds (writeThrough record.job persisted) :=
    .bind (within_ask trivial) fun _ => .bind (within_ask trivial) fun _ =>
      .bind (within_ask (c := .store _) (nil_subset _)) fun _ => .pure _
  have hgate : Within runIds (gateJobPublication toLowerCase record.job record.resultHeadSha
      (pure (some currentHead)) (writeThrough record.job persisted) nowMs) := by
    unfold gateJobPublication
    refine .ite (.pure _) (.bind (.pure _) fun head => ?_)
    split
    · exact .pure _
    · exact .ite (.pure _) (.bind hwrite fun _ => .pure _)
  refine .bind hgate fun gate => ?_
  split
  · exact .bind (within_ask trivial) fun _ => .bind (within_mirrorRunTransition _ _ _ _) fun _ => .pure _
  · exact .bind (within_ask trivial) fun _ => .bind (within_recordAttempt _ _ _ _) fun _ =>
      .bind (within_ask trivial) fun _ => .bind (within_mirrorRunTransition _ _ _ _) fun _ => .pure _

theorem within_publishPersisted (toLowerCase : String → String) (record : JobRecord) (persisted : PublicationRecord)
    (nowMs : Number) : Within runIds (publishPersisted toLowerCase record persisted nowMs) := by
  refine .bind (within_ask trivial) fun head => ?_
  split
  · exact .bind (within_recordAttempt _ _ _ _) fun _ => .pure _
  · exact .tryCatch (within_publishFresh _ _ _ _ _) fun _ => .bind (within_ask trivial) fun _ =>
      .bind (within_recordAttempt _ _ _ _) fun _ => .pure _

/-- The publisher creates no run. -/
theorem within_publish (stringify : Value → String) (secretShaped : String → Bool) (toLowerCase : String → String)
    (record : JobRecord) : Within [] (publish stringify secretShaped toLowerCase record) := by
  unfold publish
  refine .ite (.pure _) (.bind (within_ask trivial) fun nowMs => .bind (within_ask trivial) fun existing =>
    .ite (.pure _) (.bind (within_contentOf _ _ _ _ _) fun content => ?_))
  split
  · exact .pure _
  · exact .bind (within_persist _ _) fun _ => .ite (within_publishPersisted _ _ _ _) (.pure _)

end Within

/-! ## Marked runs -/

/-- The run has ended, or it does not exist and no executor is left that would create it. -/
def Marked (s : System) (runId : String) : Prop :=
  ended s.shared.tables runId = true ∨ getRun s.shared.tables runId = none ∧ runId ∉ s.unsettled

/-- Every remembered run is marked. -/
def Valid (s : System) : Prop := ∀ runId ∈ s.shared.settledRuns, Marked s runId

/-- A pass asks for a run whose executor has not settled only when the run exists, and a compare-and-swap of a pass
that misses finds the run ended. -/
def mirrors (s : System) : Call → Bool
  | .getRun runId => (getRun s.shared.tables runId).isSome || !s.unsettled.contains runId
  | .store (.apply [.transitionRun runId source _ _ _ _ _]) =>
    (getRun s.shared.tables runId).any fun run => decide (run.state = source) || isTerminalState run.state
  | _ => true

/-- What a task's calls do to the marks. -/
structure Keeps (label : Label) (s s' : System) : Prop where
  tasks : s'.tasks = s.tasks
  settled : s.shared.settledRuns ⊆ s'.shared.settledRuns
  /-- An executor remembers no run. -/
  remembers : label.run?.isSome = true → s'.shared.settledRuns = s.shared.settledRuns
  ended : ∀ runId, ended s.shared.tables runId = true → ended s'.shared.tables runId = true
  valid : Valid s → Valid s'

/-- The contract of a task: others only ever add to the remembered runs. -/
def contract (label : Label) : Contract Call Reply System Outside where
  rely s s' := s.shared.settledRuns ⊆ s'.shared.settledRuns
  assume c d s :=
    match label with
    | .executor record => runIdOf record ∈ s.unsettled
    | .pass _ _ => d.delivery = .answered → mirrors s c = true
    | .publisher _ => True
  allow _ _ _ := True
  guar := Keeps label

/-- The runs of the attempts that a record says are retired. -/
def retiredRuns (record : JobRecord) : List String :=
  (List.range' 1 (record.attempt - 1)).map (executionRunId record.job.jobId) ++
    if record.attempt ≠ 0 ∧ (retiredRunState record.state).isSome = true then [runIdOf record] else []

/-- A pass that has ended remembers the retired attempts of its snapshot. -/
def Remembers (label : Label) (result : Except Exn Settlement) (s : System) : Prop :=
  match label with
  | .pass records _ => result = .ok .reconciled → ∀ record ∈ records, retiredRuns record ⊆ s.shared.settledRuns
  | _ => True

namespace Keeps

variable {label : Label} {s s' s'' : System}

theorem refl (label : Label) (s : System) : Keeps label s s :=
  ⟨rfl, List.Subset.refl _, fun _ => rfl, fun _ h => h, id⟩

theorem trans (h : Keeps label s s') (h' : Keeps label s' s'') : Keeps label s s'' where
  tasks := h'.tasks.trans h.tasks
  settled := List.Subset.trans h.settled h'.settled
  remembers hlabel := (h'.remembers hlabel).trans (h.remembers hlabel)
  ended runId hended := h'.ended runId (h.ended runId hended)
  valid hvalid := h'.valid (h.valid hvalid)

end Keeps

section Marked

variable {payloadOk : String → Bool} {label : Label} {s : System}

theorem ended_write (c : StoreCall) (delivery : Delivery) {w : World} {runId : String} {run : RunRecord}
    (hrun : getRun w.tables runId = some run) (hterminal : isTerminalState run.state = true) :
    getRun (w.write payloadOk c delivery).2.tables runId = some run := by
  obtain hsame | ⟨answer, t, -, hperform, hwrite⟩ := write_cases payloadOk c delivery w
  · rw [hsame]
    exact hrun
  · rw [hwrite]
    exact ended_perform hperform hrun hterminal

theorem ended_iff {t : StateTables} {runId : String} :
    ended t runId = true ↔ ∃ run, getRun t runId = some run ∧ isTerminalState run.state = true := by
  simp [ended, Option.any_eq_true]

/-- A write keeps the marks unless it creates a run that somebody has given up. -/
theorem keeps_write (payloadOk : String → Bool) (label : Label) (c : StoreCall)
    (hc : ∀ runId ∈ created c, runId ∈ s.unsettled) (delivery : Delivery) :
    Keeps label s { s with shared := (s.shared.write payloadOk c delivery).2 } := by
  have hsettled : (s.shared.write payloadOk c delivery).2.settledRuns = s.shared.settledRuns := by
    obtain hsame | ⟨answer, t, -, -, hwrite⟩ := write_cases payloadOk c delivery s.shared
    · rw [hsame]
    · rw [hwrite]
  have hended : ∀ runId, ended s.shared.tables runId = true →
      ended (s.shared.write payloadOk c delivery).2.tables runId = true := by
    intro runId h
    obtain ⟨run, hrun, hterminal⟩ := ended_iff.mp h
    exact ended_iff.mpr ⟨run, ended_write c delivery hrun hterminal, hterminal⟩
  refine ⟨rfl, hsettled ▸ List.Subset.refl _, fun _ => hsettled, hended, fun hvalid runId hmem => ?_⟩
  change runId ∈ (s.shared.write payloadOk c delivery).2.settledRuns at hmem
  rw [hsettled] at hmem
  obtain hend | ⟨habsent, hidle⟩ := hvalid runId hmem
  · exact .inl (hended runId hend)
  · refine .inr ⟨?_, hidle⟩
    change getRun (s.shared.write payloadOk c delivery).2.tables runId = none
    obtain hsame | ⟨answer, t, -, hperform, hwrite⟩ := write_cases payloadOk c delivery s.shared
    · rw [hsame]
      exact habsent
    · rw [hwrite]
      exact absent_perform hperform habsent fun hcreated => hidle (hc runId hcreated)

/-- A call that is no write and remembers nothing changes nothing. -/
theorem keeps_call {runIds : List String} (h : ∀ runId ∈ runIds, runId ∈ s.unsettled) {c : Call}
    (hc : Touches runIds c) (d : Outside) :
    Keeps label s (Tasks.onShared (World.serve payloadOk) c d s).2 := by
  cases c with
  | store c => exact keeps_write payloadOk label c (fun runId hmem => h runId (hc hmem)) d.delivery
  | addSettled runId => exact hc.elim
  | _ => exact Keeps.refl label s

end Marked

/-! ## A pass -/

section Pass

variable {payloadOk : String → Bool} {t t' : StateTables} {runId : String} {source target : JobLifecycleState}
  {patch : RunTransitionPatch} {nowMs : Number}

theorem perform_transitionRun : perform payloadOk t (.apply [transitionRun runId source target patch nowMs]) =
    (applyMutation payloadOk t (transitionRun runId source target patch nowMs)).map fun t' => (true, t') := by
  simp [perform, applyBatch]

theorem state_of_transition (h : applyMutation payloadOk t (transitionRun runId source target patch nowMs) = .ok t') :
    ∃ run, getRun t' runId = some run ∧ run.state = target := by
  have hwrote := wrote_of_ok h
  unfold transitionRun at hwrote
  cases hwrote
  exact ⟨_, Map.get?_set_self _ _ _, rfl⟩

/-- A compare-and-swap that misses: the run is not there, or in another state. -/
theorem missed_of_transition {e : Exn}
    (h : applyMutation payloadOk t (transitionRun runId source target patch nowMs) = .error e)
    (hname : e.name = "StateConflictError") : ∀ run, getRun t runId = some run → run.state ≠ source := by
  intro run hrun hstate
  simp only [transitionRun, applyMutation] at h
  unfold getRun at hrun
  cases hnow : requireClock "transition-run" "nowMs" (.number nowMs) with
  | error e' =>
    rw [hnow] at h
    cases h
    unfold requireClock at hnow
    split at hnow <;> cases hnow
    simp [rangeError] at hname
  | ok now =>
    rw [hnow] at h
    dsimp only [bind, Except.bind] at h
    split at h
    · cases h
      simp [rangeError] at hname
    rw [hrun] at h
    dsimp only [pure, Except.pure] at h
    rw [if_neg (not_not.mpr hstate)] at h
    split at h
    · cases h
      simp [error] at hname
    · cases h

/-- What a compare-and-swap at the store comes to. -/
theorem swap_cases (payloadOk : String → Bool) (runId : String) (source target : JobLifecycleState)
    (patch : RunTransitionPatch) (nowMs : Number) (delivery : Delivery) (w : World) :
    ((w.write payloadOk (.apply [transitionRun runId source target patch nowMs]) delivery).1 = .ok true ∧
        ∃ run, getRun (w.write payloadOk (.apply [transitionRun runId source target patch nowMs]) delivery).2.tables
          runId = some run ∧ run.state = target) ∨
      ∃ e, (w.write payloadOk (.apply [transitionRun runId source target patch nowMs]) delivery).1 = .error e ∧
        (e.name = "StateConflictError" → delivery = .answered ∧
          ∀ run, getRun w.tables runId = some run → run.state ≠ source) := by
  have htransport : transportError.name ≠ "StateConflictError" := by decide
  unfold World.write
  rw [perform_transitionRun]
  split
  · exact .inr ⟨_, rfl, fun hname => absurd hname htransport⟩
  cases happly : applyMutation payloadOk w.tables (transitionRun runId source target patch nowMs) with
  | ok t =>
    simp only [Except.map, arrived]
    split
    · exact .inl ⟨rfl, state_of_transition happly⟩
    · exact .inr ⟨_, rfl, fun hname => absurd hname htransport⟩
  | error e =>
    simp only [Except.map, arrived]
    split
    · next hanswered => exact .inr ⟨e, rfl, fun hname => ⟨hanswered, missed_of_transition happly hname⟩⟩
    · exact .inr ⟨_, rfl, fun hname => absurd hname htransport⟩

variable {records : List JobRecord} {unsettled known : List String} {h : List (Entry Call Reply PUnit)} {s : System}

/-- What holds at the end of a piece of a pass, which knows the runs `known` to be remembered. -/
abbrev PassSafe (payloadOk : String → Bool) (records : List JobRecord) (unsettled : List String) {α : Type}
    (p : Program α) (Q : Except Exn α → System → Prop) (h : List (Entry Call Reply PUnit)) (s : System) : Prop :=
  Async.Safe (Tasks.onShared (World.serve payloadOk)) sync (contract (.pass records unsettled)) p (fun r _ => Q r) h s

/-- The call of a hop: it brings the run to its target, or it is refused because the run has ended. -/
theorem safe_swap (hknown : known ⊆ s.shared.settledRuns) :
    PassSafe payloadOk records unsettled (ask (.store (.apply [transitionRun runId source target patch nowMs])))
      (fun r s => known ⊆ s.shared.settledRuns ∧
        match r with
        | .ok _ => ∃ run, getRun s.shared.tables runId = some run ∧ run.state = target
        | .error e => e.name = "StateConflictError" → ended s.shared.tables runId = true) h s := by
  refine Async.Safe.call rfl fun s' hs' => ⟨trivial, fun d hd => ?_⟩
  have hkeeps := keeps_write (s := s') payloadOk (.pass records unsettled)
    (.apply [transitionRun runId source target patch nowMs]) (fun _ hmem => by cases hmem) d.delivery
  refine ⟨hkeeps, fun _ hmem => hkeeps.settled (hs' (hknown hmem)), ?_⟩
  obtain ⟨hr, hrun⟩ | ⟨e, hr, hmissed⟩ := swap_cases payloadOk runId source target patch nowMs d.delivery s'.shared
  · have hreply : (Tasks.onShared (World.serve payloadOk)
        (.store (.apply [transitionRun runId source target patch nowMs])) d s').1 = .ok true := hr
    rw [hreply]
    exact hrun
  · have hreply : (Tasks.onShared (World.serve payloadOk)
        (.store (.apply [transitionRun runId source target patch nowMs])) d s').1 = .error e := hr
    rw [hreply]
    intro hname
    obtain ⟨hdelivery, hstate⟩ := hmissed hname
    have hmirrors := hd hdelivery
    simp only [transitionRun, mirrors, Option.any_eq_true] at hmirrors
    obtain ⟨run, hfound, hrun⟩ := hmirrors
    simp only [hstate run hfound, decide_false, Bool.false_or] at hrun
    exact hkeeps.ended runId (ended_iff.mpr ⟨run, hfound, hrun⟩)

/-- A hop that goes through brings the run to its target; one that misses finds it ended. -/
theorem safe_hop (hknown : known ⊆ s.shared.settledRuns) :
    PassSafe payloadOk records unsettled (hop (transitionRun runId source target patch nowMs))
      (fun r s => known ⊆ s.shared.settledRuns ∧
        match r with
        | .ok true => ∃ run, getRun s.shared.tables runId = some run ∧ run.state = target
        | .ok false => ended s.shared.tables runId = true
        | .error _ => True) h s := by
  refine Async.Safe.tryCatch (Async.Safe.bind (safe_swap hknown) (S := fun r _ s => known ⊆ s.shared.settledRuns ∧
      match r with
      | .ok b => b = true ∧ ∃ run, getRun s.shared.tables runId = some run ∧ run.state = target
      | .error e => e.name = "StateConflictError" → ended s.shared.tables runId = true)
    (fun b h s hQ => ⟨hQ.1, rfl, hQ.2⟩) fun e h s hQ => hQ) ?_ ?_
  · rintro b h s ⟨hknown, rfl, hrun⟩
    exact ⟨hknown, hrun⟩
  · rintro e h s ⟨hknown, herror⟩
    by_cases hname : e.name = "StateConflictError"
    · rw [if_pos hname]
      exact ⟨hknown, herror hname⟩
    · rw [if_neg hname]
      exact ⟨hknown, trivial⟩

/-- A path to a terminal state leaves the run marked. -/
theorem safe_walk (hterminal : isTerminalState target = true) {path : List JobLifecycleState}
    (hpath : path.getLast? = some target) (hknown : known ⊆ s.shared.settledRuns) :
    PassSafe payloadOk records unsettled (walk runId target patch nowMs source path)
      (fun r s => known ⊆ s.shared.settledRuns ∧ (r = .ok () → ended s.shared.tables runId = true)) h s := by
  induction path generalizing source h s with
  | nil => cases hpath
  | cons step path ih =>
    unfold walk
    refine Async.Safe.bind (safe_hop hknown) ?_ fun e h s hQ => ⟨hQ.1, fun he => by cases he⟩
    rintro (_ | _) h s ⟨hknown, hrun⟩
    · exact ⟨hknown, fun _ => hrun⟩
    · cases path with
      | nil =>
        obtain ⟨run, hrun, hstate⟩ := hrun
        cases hpath
        exact ⟨hknown, fun _ => ended_iff.mpr ⟨run, hrun, hstate ▸ hterminal⟩⟩
      | cons next path => exact ih hpath hknown

theorem safe_mirrorRunTransition (hterminal : isTerminalState target = true)
    (hknown : known ⊆ s.shared.settledRuns) :
    PassSafe payloadOk records unsettled (mirrorRunTransition runId target nowMs patch)
      (fun r s => known ⊆ s.shared.settledRuns ∧ (r = .ok () → Marked s runId)) h s := by
  unfold mirrorRunTransition
  refine Async.Safe.bind (Q := fun r _ s => known ⊆ s.shared.settledRuns ∧ match r with
      | .ok none => Marked s runId
      | .ok (some run) => isTerminalState run.state = true → Marked s runId
      | .error _ => True) ?_ ?_ fun e h s hQ => ⟨hQ.1, fun he => by cases he⟩
  · refine Async.Safe.call rfl fun s' hs' => ⟨trivial, fun d hd => ⟨Keeps.refl _ _, fun _ hmem => hs' (hknown hmem), ?_⟩⟩
    by_cases hdelivery : d.delivery = .answered
    · have hreply : (Tasks.onShared (World.serve payloadOk) (.getRun runId) d s').1 =
          .ok (getRun s'.shared.tables runId) := if_pos hdelivery
      rw [hreply]
      have hmirrors := hd hdelivery
      simp only [mirrors] at hmirrors
      cases hrun : getRun s'.shared.tables runId with
      | none =>
        rw [hrun] at hmirrors
        have hidle : runId ∉ System.unsettled s' := by simpa using hmirrors
        exact .inr ⟨hrun, hidle⟩
      | some run => exact fun hended => .inl (ended_iff.mpr ⟨run, hrun, hended⟩)
    · have hreply : (Tasks.onShared (World.serve payloadOk) (.getRun runId) d s').1 = .error transportError :=
        if_neg hdelivery
      rw [hreply]
      trivial
  · rintro run h s ⟨hknown, hrun⟩
    cases run with
    | none => exact ⟨hknown, fun _ => hrun⟩
    | some run =>
      dsimp only
      split
      · next hended => exact ⟨hknown, fun _ => hrun hended⟩
      next hlive =>
      split
      · next hstate => exact absurd (hstate ▸ hterminal) hlive
      obtain ⟨path, hpath, hlast⟩ := path_of_terminal (by simpa using hlive) hterminal
      rw [hpath]
      exact Async.Safe.mono (safe_walk hterminal hlast hknown) fun r h s hQ => ⟨hQ.1, fun hr => .inl (hQ.2 hr)⟩

/-- What was remembered stays so, and the runs of `more` are too when the code returns. -/
abbrev Adds (known more : List String) (r : Except Exn Unit) (s : System) : Prop :=
  known ⊆ s.shared.settledRuns ∧ (r = .ok () → more ⊆ s.shared.settledRuns)

theorem safe_settleOnce (hterminal : isTerminalState target = true) (hknown : known ⊆ s.shared.settledRuns) :
    PassSafe payloadOk records unsettled (settleOnce runId target patch) (Adds known [runId]) h s := by
  unfold settleOnce
  refine Async.Safe.bind (Q := fun r _ s => known ⊆ s.shared.settledRuns ∧
      (r = .ok true → runId ∈ s.shared.settledRuns)) ?_ ?_ fun e h s hQ => ⟨hQ.1, fun he => by cases he⟩
  · refine Async.Safe.call_sync rfl trivial fun d => ⟨Keeps.refl _ _, hknown, fun hreply => ?_⟩
    have hcontains : Except.ok (ε := Exn) (s.shared.settledRuns.contains runId) = .ok true := hreply
    have hmem : runId ∈ s.shared.settledRuns := by simpa using hcontains
    exact hmem
  · rintro has h s ⟨hknown, hhas⟩
    split
    · next hyes => exact ⟨hknown, fun _ => by simpa using hhas (congrArg _ hyes)⟩
    · refine Async.Safe.bind (Q := fun _ _ s => known ⊆ s.shared.settledRuns)
        (Async.Safe.call_sync rfl trivial fun d => ⟨Keeps.refl _ _, hknown⟩) ?_
        fun e h s hQ => ⟨hQ, fun he => by cases he⟩
      intro nowMs h s hknown
      refine Async.Safe.bind (safe_mirrorRunTransition hterminal hknown) ?_
        fun e h s hQ => ⟨hQ.1, fun he => by cases he⟩
      rintro ⟨⟩ h s ⟨hknown, hmarked⟩
      refine Async.Safe.call_sync rfl trivial fun d => ⟨⟨rfl, subset_cons_self _ _, ?_, fun _ hended => hended, ?_⟩,
        fun _ hmem => mem_cons_of_mem _ (hknown hmem), fun _ => by simp [Tasks.onShared, World.serve]⟩
      · intro hlabel
        cases hlabel
      · intro hvalid r hmem
        rcases mem_cons.mp hmem with rfl | hmem
        · exact hmarked rfl
        · exact hvalid r hmem

/-- Two pieces of a pass, one behind the other. -/
theorem safe_then {p q : Program Unit} {more more' : List String}
    (hp : PassSafe payloadOk records unsettled p (Adds known more) h s)
    (hq : ∀ h s, known ++ more ⊆ s.shared.settledRuns →
      PassSafe payloadOk records unsettled q (Adds (known ++ more) more') h s) :
    PassSafe payloadOk records unsettled (p >>= fun _ => q) (Adds known (more ++ more')) h s := by
  refine Async.Safe.bind hp ?_ fun e h s hQ => ⟨hQ.1, fun he => by cases he⟩
  rintro ⟨⟩ h s ⟨hknown, hmore⟩
  refine Async.Safe.mono (hq h s (append_subset.mpr ⟨hknown, hmore rfl⟩)) fun r h s hQ => ?_
  obtain ⟨hknown, hmore⟩ := append_subset.mp hQ.1
  exact ⟨hknown, fun hr => append_subset.mpr ⟨hmore, hQ.2 hr⟩⟩

theorem safe_reconcileAbandoned (jobId : String) (attempts : List Nat) (hknown : known ⊆ s.shared.settledRuns) :
    PassSafe payloadOk records unsettled (reconcileAbandoned jobId attempts)
      (Adds known (attempts.map (executionRunId jobId))) h s := by
  induction attempts generalizing known h s with
  | nil => exact ⟨hknown, fun _ => nil_subset _⟩
  | cons attempt attempts ih => exact safe_then (safe_settleOnce rfl hknown) fun h s hknown => ih hknown

theorem retiredRunState_terminal {state : JobLifecycleState} {patch : RunTransitionPatch}
    (h : retiredRunState state = some (target, patch)) : isTerminalState target = true := by
  cases state <;> cases h <;> rfl

theorem safe_reconcileRecord (record : JobRecord) (hknown : known ⊆ s.shared.settledRuns) :
    PassSafe payloadOk records unsettled (reconcileRecord record) (Adds known (retiredRuns record)) h s := by
  unfold reconcileRecord
  split
  · next hzero => exact ⟨hknown, fun _ => by simp [retiredRuns, hzero]⟩
  next hattempt =>
  refine safe_then (safe_reconcileAbandoned _ _ hknown) fun h s hknown => ?_
  cases hretired : retiredRunState record.state with
  | none => exact ⟨hknown, fun _ => by simp⟩
  | some retired =>
    rw [if_pos ⟨hattempt, rfl⟩]
    exact safe_settleOnce (retiredRunState_terminal hretired) hknown

theorem safe_reconcileRecords (rs : List JobRecord) (hknown : known ⊆ s.shared.settledRuns) :
    PassSafe payloadOk records unsettled (reconcileRecords rs) (Adds known (rs.flatMap retiredRuns)) h s := by
  induction rs generalizing known h s with
  | nil => exact ⟨hknown, fun _ => nil_subset _⟩
  | cons r rs ih =>
    rw [flatMap_cons]
    exact safe_then (safe_reconcileRecord r hknown) fun h s hknown => ih hknown

theorem safe_reconcileRunRecords (s : System) :
    PassSafe payloadOk records unsettled reconcileRunRecords
      (fun r s' => r = .ok () → s.shared.records.flatMap retiredRuns ⊆ s'.shared.settledRuns) [] s := by
  refine Async.Safe.bind (Q := fun r _ _ => ∀ rs, r = .ok rs → rs = s.shared.records)
    (Async.Safe.call_sync rfl trivial fun d => ⟨Keeps.refl _ _, fun rs hrs => by cases hrs; rfl⟩) ?_
    fun e h s' hQ he => by cases he
  intro rs h s' hrs
  cases hrs rs rfl
  exact Async.Safe.mono (safe_reconcileRecords _ (nil_subset _)) fun r h s' hQ => hQ.2

end Pass

/-! ## Runs -/

/-- What the memory of the settled runs takes for granted at a step: an attempt that a pass has remembered is started
again only when its run has ended, and the calls of a pass find what `mirrors` says. -/
def settling (s : System) : Event → Bool
  | .dispatch jobId =>
    match recordFor s.shared.records jobId with
    | none => true
    | some record =>
      let runId := executionRunId record.job.jobId (record.attempt + 1)
      !s.shared.settledRuns.contains runId || ended s.shared.tables runId
  | .resume i d =>
    match s.tasks[i]? with
    | none => true
    | some t =>
      match t.label, t.next? with
      | .pass _ _, some c => !decide (d.delivery = .answered) || mirrors s c
      | _, _ => true
  | _ => true

/-- What holds along runs whose steps are all `settling`. -/
structure Sound (payloadOk : String → Bool) (s : System) : Prop where
  valid : Valid s
  tasks : ∀ (i : Nat) t, s.tasks[i]? = some t → t.alive = true → t.rest.Parked sync ∧
    t.rest.Safe (Tasks.onShared (World.serve payloadOk)) sync (contract t.label) (fun r _ => Remembers t.label r.1)
      t.history s

section Run

variable {payloadOk : String → Bool} {s s' : System}

theorem Remembers.mono {label : Label} {r : Except Exn Settlement} (h : Remembers label r s)
    (hsettled : s.shared.settledRuns ⊆ s'.shared.settledRuns) : Remembers label r s' := by
  cases label with
  | pass records unsettled => exact fun hr record hrecord => List.Subset.trans (h hr record hrecord) hsettled
  | _ => trivial

/-- A task that waits or has ended stands a change that forgets no run. -/
theorem safe_of_settled {label : Label} {p : Pending Call Reply (Except Exn Settlement × Unit)}
    {h : List (Entry Call Reply PUnit)} (hparked : p.Parked sync)
    (hsafe : p.Safe (Tasks.onShared (World.serve payloadOk)) sync (contract label) (fun r _ => Remembers label r.1) h s)
    (hsettled : s.shared.settledRuns ⊆ s'.shared.settledRuns) :
    p.Safe (Tasks.onShared (World.serve payloadOk)) sync (contract label) (fun r _ => Remembers label r.1) h s' := by
  cases p with
  | done r => exact Remembers.mono hsafe hsettled
  | await c next =>
    exact Pending.Safe.stable hsafe hparked (fun h h' => List.Subset.trans h h') hsettled

theorem Sound.of_tasks (h : Sound payloadOk s) (htasks : s'.tasks = s.tasks)
    (hsettled : s.shared.settledRuns ⊆ s'.shared.settledRuns) (hvalid : Valid s') : Sound payloadOk s' := by
  refine ⟨hvalid, fun i t ht halive => ?_⟩
  rw [htasks] at ht
  obtain ⟨hparked, hsafe⟩ := h.tasks i t ht halive
  exact ⟨hparked, safe_of_settled hparked hsafe hsettled⟩

theorem Marked.congr {runId : String} (h : Marked s runId) (htables : s'.shared.tables = s.shared.tables)
    (hunsettled : runId ∈ System.unsettled s' → runId ∈ System.unsettled s) : Marked s' runId := by
  unfold Marked at h ⊢
  rw [htables]
  exact h.imp_right fun ⟨habsent, hidle⟩ => ⟨habsent, fun hmem => hidle (hunsettled hmem)⟩

theorem unsettled_snoc (s : System) (t : Task Call Reply Label (Except Exn Settlement × Unit)) :
    System.unsettled { s with tasks := s.tasks ++ [t] } =
      System.unsettled s ++ (t.next?.bind fun _ => t.label.run?).toList := by
  unfold System.unsettled
  rw [filterMap_append]
  cases h : t.next?.bind fun _ => t.label.run? <;> simp [h]

/-- A task begins; one that is an executor is of a run that nobody has given up. -/
theorem Sound.spawn (h : Sound payloadOk s) {α : Type} {label : Label} {p : Program α} {settled : α → Settlement}
    (hsafe : Async.Safe (Tasks.onShared (World.serve payloadOk)) sync (contract label) (settled <$> p)
      (fun r _ => Remembers label r) [] s)
    (hrun : ∀ runId, label.run? = some runId → runId ∈ s.shared.settledRuns → ended s.shared.tables runId = true) :
    Sound payloadOk (System.spawn payloadOk s label p settled) := by
  obtain ⟨hkeeps, hsafe', hparked⟩ := Pending.Safe.advance hsafe (Keeps.refl label) Keeps.trans {}
  unfold System.spawn
  refine ⟨fun runId hmem => ?_, fun i t ht halive => ?_⟩
  · unfold Tasks.start at hmem ⊢
    dsimp only at hmem ⊢
    have hmarked := hkeeps.valid h.valid runId hmem
    obtain hended | ⟨habsent, hidle⟩ := hmarked
    · exact .inl hended
    · by_cases hlabel : label.run? = some runId
      · have hmem' : runId ∈ s.shared.settledRuns := hkeeps.remembers (by rw [hlabel]; rfl) ▸ hmem
        exact .inl (hkeeps.ended runId (hrun runId hlabel hmem'))
      · refine .inr ⟨habsent, ?_⟩
        rw [unsettled_snoc]
        simp only [mem_append, Option.mem_toList, Option.bind_eq_some_iff, not_or]
        exact ⟨hidle, fun ⟨_, _, hrun⟩ => hlabel hrun⟩
  · obtain ⟨rfl, rfl⟩ | ht := Tasks.start_cases ht
    · exact ⟨hparked, safe_of_settled hparked hsafe' (List.Subset.refl _)⟩
    · obtain ⟨hparked, hsafe⟩ := h.tasks i t ht halive
      exact ⟨hparked, safe_of_settled hparked hsafe hkeeps.settled⟩

theorem mem_unsettled {runId : String} :
    runId ∈ System.unsettled s ↔ ∃ t ∈ s.tasks, t.next?.isSome = true ∧ t.label.run? = some runId := by
  simp [System.unsettled, mem_filterMap, Option.bind_eq_some_iff, Option.isSome_iff_exists]

/-- A step of a task leaves no run unsettled that was not. -/
theorem unsettled_set {i : Nat} {t t' : Task Call Reply Label (Except Exn Settlement × Unit)} (ht : s.tasks[i]? = some t)
    (hnext : t.next?.isSome = true) (hlabel : t'.label = t.label) {runId : String}
    (h : runId ∈ System.unsettled { s with tasks := s.tasks.set i t' }) : runId ∈ System.unsettled s := by
  obtain ⟨u, hu, hpending, hrun⟩ := mem_unsettled.mp h
  rcases mem_or_eq_of_mem_set hu with hu | rfl
  · exact mem_unsettled.mpr ⟨u, hu, hpending, hrun⟩
  · exact mem_unsettled.mpr ⟨t, mem_of_getElem? ht, hnext, hlabel ▸ hrun⟩

theorem Sound.resume (h : Sound payloadOk s) {i : Nat} {d : Outside} (hsettling : settling s (.resume i d) = true) :
    Sound payloadOk (s.resume (World.serve payloadOk) sync i d) := by
  unfold Tasks.resume
  split
  · exact h
  next t ht =>
  split
  · next c next halive hrest =>
    obtain ⟨hparked, hsafe⟩ := h.tasks i t ht halive
    rw [hrest] at hparked hsafe
    have hnext : t.next? = some c := by
      unfold Task.next?
      rw [halive, hrest]
    have hassume : (contract t.label).assume c d s := by
      simp only [settling, ht, hnext] at hsettling
      simp only [contract]
      split
      · next record hlabel =>
        exact mem_unsettled.mpr ⟨t, mem_of_getElem? ht, by rw [hnext]; rfl, by rw [hlabel]; rfl⟩
      · next records unsettled hlabel =>
        rw [hlabel] at hsettling
        intro hdelivery
        simpa [hdelivery] using hsettling
      · trivial
    obtain ⟨hkeeps, hsafe', hparked'⟩ := hsafe.served hassume (List.Subset.refl _) (Keeps.refl t.label) Keeps.trans
    generalize Pending.served (Tasks.onShared (World.serve payloadOk)) sync c next d t.history s = served
      at hkeeps hsafe' hparked' ⊢
    obtain ⟨rest, history, m⟩ := served
    dsimp only at hkeeps hsafe' hparked' ⊢
    refine ⟨fun runId hmem => ?_, fun j u hu hualive => ?_⟩
    · have ht' : m.tasks[i]? = some t := by rw [hkeeps.tasks, ht]
      exact Marked.congr (hkeeps.valid h.valid runId hmem) rfl fun hmem' =>
        unsettled_set ht' (by rw [hnext]; rfl) (by rfl) hmem'
    · obtain ⟨rfl, rfl⟩ | ⟨-, hu⟩ := getElem?_set_cases hu
      · exact ⟨hparked', safe_of_settled hparked' hsafe' (List.Subset.refl _)⟩
      · rw [hkeeps.tasks] at hu
        obtain ⟨hparked, hsafe⟩ := h.tasks j u hu hualive
        exact ⟨hparked, safe_of_settled hparked hsafe hkeeps.settled⟩
  · exact h

variable {runtime : Runtime} {stringify : Value → String} {secretShaped : String → Bool} {toLowerCase : String → String}

theorem Sound.setRecords (h : Sound payloadOk s) (records : List JobRecord) :
    Sound payloadOk (System.setRecords s records) :=
  h.of_tasks rfl (List.Subset.refl _) fun runId hmem => (h.valid runId hmem).congr rfl id

/-- Code that creates runs only whose executor its label says is at work. -/
theorem safe_of_within {label : Label} {runIds : List String} {α : Type} {p : Program α} (hp : Within runIds p)
    (hlabel : ∀ c d s, (contract label).assume c d s → ∀ runId ∈ runIds, runId ∈ System.unsettled s) :
    Async.Safe (Tasks.onShared (World.serve payloadOk)) sync (contract label) p (fun _ _ _ => True) [] s := by
  refine Async.Safe.of_obeys (A := Touches runIds) (I := fun _ => True) hp (fun _ _ _ _ => trivial) ?_ trivial
  intro h c s htouches _
  refine ⟨trivial, fun d hd => ⟨?_, trivial⟩⟩
  rcases hd with hsync | hassume
  · cases c <;> first | exact Keeps.refl label s | exact htouches.elim | cases hsync
  · exact keeps_call (hlabel c d s hassume) htouches d

theorem Sound.dispatch (h : Sound payloadOk s) {jobId : String} (hsettling : settling s (.dispatch jobId) = true) :
    Sound payloadOk (s.dispatch payloadOk runtime jobId) := by
  unfold System.dispatch
  split
  · exact h
  next record hrecord =>
  split
  · refine (h.setRecords _).spawn (safe_of_within (within_executorStart runtime _).map fun c d s hassume runId hmem => ?_)
      fun runId hlabel hmem => ?_
    · rw [mem_singleton.mp hmem]
      exact hassume
    · cases hlabel
      simp only [settling, hrecord] at hsettling
      have hmem : executionRunId record.job.jobId (record.attempt + 1) ∈ s.shared.settledRuns := hmem
      simp only [contains_iff_mem.mpr hmem, Bool.not_true, Bool.false_or] at hsettling
      exact hsettling
  · exact h

theorem sound_step (h : Sound payloadOk s) (e : Event) (hsettling : settling s e = true) :
    Sound payloadOk (s.step payloadOk runtime stringify secretShaped toLowerCase e) := by
  cases e with
  | time now => exact h.of_tasks rfl (List.Subset.refl _) fun runId hmem => (h.valid runId hmem).congr rfl id
  | queue record =>
    simp only [System.step, System.queue]
    split
    · split
      · exact h.setRecords _
      · exact h
    · split
      · exact h.setRecords _
      · exact h
  | forget jobId => exact h.setRecords _
  | dispatch jobId => exact h.dispatch hsettling
  | reconcile =>
    refine h.spawn (Async.Safe.map (safe_reconcileRunRecords s) fun r h s' hQ hr record hrecord => ?_) fun _ hlabel => by
      cases hlabel
    cases r with
    | ok => exact fun runId hmem => hQ rfl (mem_flatMap.mpr ⟨record, hrecord, hmem⟩)
    | error e => cases hr
  | publish record =>
    simp only [System.step]
    split
    · exact h
    · exact h.spawn (safe_of_within (within_publish _ _ _ record).map fun _ _ _ _ _ hmem => by cases hmem) fun _ hlabel => by
        cases hlabel
  | renew runId delivery =>
    have hkeeps := keeps_write (s := s) payloadOk (.pass [] [])
      (.heartbeatRun runId runtime.instanceId s.shared.clock runtime.leaseTtlMs) (fun _ hmem => by cases hmem) delivery
    exact h.of_tasks rfl hkeeps.settled (hkeeps.valid h.valid)
  | resume i d => exact h.resume hsettling
  | restart =>
    refine ⟨fun runId hmem => (not_mem_nil hmem).elim, fun i t ht halive => ?_⟩
    simp only [System.step, Tasks.kill, List.getElem?_map, Option.map_eq_some_iff] at ht
    obtain ⟨t, -, rfl⟩ := ht
    cases halive

theorem ended_step {runId : String} {run : RunRecord} (hrun : getRun s.shared.tables runId = some run)
    (hterminal : isTerminalState run.state = true) (e : Event) :
    getRun (s.step payloadOk runtime stringify secretShaped toLowerCase e).shared.tables runId = some run := by
  have hserve : ∀ c d w, getRun (World.tables w) runId = some run →
      getRun (World.serve payloadOk c d w).2.tables runId = some run := by
    intro c d w hw
    cases c with
    | store c => exact ended_write c d.delivery hw hterminal
    | _ => exact hw
  cases e with
  | time now => exact hrun
  | queue record =>
    simp only [System.step, System.queue]
    split <;> split <;> exact hrun
  | forget jobId => exact hrun
  | dispatch jobId =>
    simp only [System.step, System.dispatch]
    split
    · exact hrun
    · split
      · exact Tasks.start_shared hserve hrun
      · exact hrun
  | reconcile => exact Tasks.start_shared hserve hrun
  | publish record =>
    simp only [System.step]
    split
    · exact hrun
    · exact Tasks.start_shared hserve hrun
  | renew runId delivery => exact ended_write _ delivery hrun hterminal
  | resume i d => exact Tasks.resume_shared hserve hrun
  | restart => exact hrun

/-- When a pass of this process has ended without an error, the run of every attempt that was retired and whose
executor had settled when the pass began has ended, if it exists. -/
def Reconciled (s : System) : Prop :=
  ∀ t ∈ s.tasks, t.alive = true → ∀ records unsettled, t.label = .pass records unsettled →
    t.result? = some (.ok .reconciled, ()) → ∀ record ∈ records, ∀ runId ∈ retiredRuns record, runId ∉ unsettled →
      ∀ run, getRun s.shared.tables runId = some run → isTerminalState run.state = true

theorem Sound.reconciled (h : Sound payloadOk s) : Reconciled s := by
  intro t ht halive records unsettled hlabel hresult record hrecord runId hretired _ run hrun
  obtain ⟨i, hi⟩ := List.getElem?_of_mem ht
  obtain ⟨-, hsafe⟩ := h.tasks i t hi halive
  cases hrest : t.rest with
  | await c next => simp [Task.result?, hrest] at hresult
  | done r =>
    simp only [Task.result?, hrest, Option.some.injEq] at hresult
    subst hresult
    rw [hrest, hlabel] at hsafe
    obtain hended | ⟨habsent, -⟩ := h.valid runId (hsafe rfl record hrecord hretired)
    · obtain ⟨run', hrun', hterminal⟩ := ended_iff.mp hended
      rw [hrun] at hrun'
      cases hrun'
      exact hterminal
    · rw [hrun] at habsent
      cases habsent

/-- In every interleaving a run that has ended stays as it is; where every step is `settling`, the passes keep their
promise. -/
theorem runs_settled (payloadOk : String → Bool) (runtime : Runtime) (stringify : Value → String)
    (secretShaped : String → Bool) (toLowerCase : String → String) (clock : Number) (tables : StateTables)
    (events : List Event) :
    (∀ n runId run,
      getRun (Machine.run (System.step payloadOk runtime stringify secretShaped toLowerCase)
        (System.boot clock tables) (events.take n)).shared.tables runId = some run →
      isTerminalState run.state = true →
      getRun (Machine.run (System.step payloadOk runtime stringify secretShaped toLowerCase)
        (System.boot clock tables) events).shared.tables runId = some run) ∧
      (Machine.Along (System.step payloadOk runtime stringify secretShaped toLowerCase)
          (fun s e => settling s e = true) (System.boot clock tables) events →
        Reconciled (Machine.run (System.step payloadOk runtime stringify secretShaped toLowerCase)
          (System.boot clock tables) events)) := by
  constructor
  · intro n runId run hrun hterminal
    conv_lhs => rw [← take_append_drop n events]
    rw [Machine.run_append]
    exact Machine.invariant (I := fun s : System => getRun s.shared.tables runId = some run)
      (fun s e hs => ended_step hs hterminal e) hrun _
  · intro halong
    have hboot : Sound payloadOk (System.boot clock tables) :=
      ⟨fun _ hmem => (not_mem_nil hmem).elim, fun i t ht => by simp [System.boot] at ht⟩
    exact (halong.invariant (I := Sound payloadOk) (fun s e hs he => sound_step hs e he) hboot).reconciled

end Run

/-! ## An attempt given up while it is built -/

def waiting : JobRecord where
  job := Queue.exampleJob "gen"
  prKey := Queue.prIdentityKey (Queue.exampleJob "gen")
  state := .queued
  enqueuedAtMs := 0
  readyAtMs := 0
  attempt := 0
  nextRetryAtMs := 0
  leaseOwner := ""
  leaseExpiresAtMs := 0
  cancelRequested := false
  resultHeadSha := ""
  failureReason := ""
  supersededByJobId := ""
  updatedAtMs := 0

def localRuntime : Runtime := ⟨"controller", 60000, [⟨"local", "local", none⟩]⟩

/-- The worker is built, launched and collected. -/
def attemptSteps : List Event :=
  [.resume 0 { build := .ok "local" }] ++ List.replicate 7 (.resume 0 {}) ++
    [.resume 0 { collect := .ok (.ok ⟨"gen-a1", "gen", .completed, "abcdef0", "", ""⟩) }] ++
    List.replicate 3 (.resume 0 {})

/-- The lease of an attempt expires while its request is built; a pass gives the run up before it is created. -/
def givenUp : List Event :=
  [.queue waiting, .dispatch "gen", .queue { waiting with attempt := 1 }, .reconcile, .resume 1 {}] ++
    attemptSteps ++ [.reconcile]

/-- The attempt ends before its record is queued again. -/
def takenBack : List Event :=
  [.queue waiting, .dispatch "gen"] ++ attemptSteps ++
    [.queue { waiting with attempt := 1 }, .reconcile] ++ List.replicate 2 (.resume 1 {})

def exampleStep : System → Event → System := System.step (fun _ => true) localRuntime (fun _ => "") (fun _ => false) id

theorem runs_settled_takenBack :
    Machine.Along exampleStep (fun s e => settling s e = true) (System.boot 1 .empty) takenBack ∧
      Reconciled (Machine.run exampleStep (System.boot 1 .empty) takenBack) :=
  have halong : Machine.Along exampleStep (fun s e => settling s e = true) (System.boot 1 .empty) takenBack := by
    decide +kernel
  ⟨halong, (runs_settled (fun _ => true) localRuntime (fun _ => "") (fun _ => false) id 1 .empty takenBack).2 halong⟩

/-- The run stays `publishing`: the pass behind the end of its executor takes it for settled. -/
theorem givenUp_not_reconciled : ¬ Reconciled (Machine.run exampleStep (System.boot 1 .empty) givenUp) := by
  intro h
  have hpass : ((Machine.run exampleStep (System.boot 1 .empty) givenUp).tasks[2]?.map fun t =>
      (t.alive, t.label, t.result?)) =
        some (true, .pass [{ waiting with attempt := 1 }] [], some (.ok .reconciled, ())) := by decide +kernel
  have hrun : (getRun (Machine.run exampleStep (System.boot 1 .empty) givenUp).shared.tables "gen-a1").map (·.state) =
      some .publishing := by decide +kernel
  obtain ⟨t, ht, hpass⟩ := Option.map_eq_some_iff.mp hpass
  obtain ⟨run, hrun, hstate⟩ := Option.map_eq_some_iff.mp hrun
  obtain ⟨halive, hrest⟩ := Prod.mk.inj hpass
  obtain ⟨hlabel, hresult⟩ := Prod.mk.inj hrest
  have hterminal := h t (mem_of_getElem? ht) halive _ _ hlabel hresult _ mem_cons_self "gen-a1"
    (by decide +kernel) not_mem_nil run hrun
  rw [hstate] at hterminal
  cases hterminal


end PrReviewer.Controller.Daemon
