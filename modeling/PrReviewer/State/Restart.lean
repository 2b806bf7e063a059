import PrReviewer.Js.Except
import PrReviewer.Js.Machine
import PrReviewer.State.Store

/-!
# Control-plane state across a restart

- **Stored records** (`TablesOk`): every record obeys the rules of its validator and stands under its own
  identity. All writes keep this but one: `transition-run` asks of its clock only that it is finite
  (`tablesOk_step`, with `SafeClocks` as the condition on the clocks).
-/

open Js List

namespace PrReviewer.State

open Queue (JobPlatform JobLifecycleState canTransition isTerminalState)

/-! ## Tables by identity -/

/-- Every record stands under its own identity and is valid. -/
def Keyed {ρ : Type} (identity : ρ → String) (valid : ρ → Prop) (m : Map String ρ) : Prop :=
  ∀ k r, m.get? k = some r → k = identity r ∧ valid r

section Keyed

variable {ρ : Type} {identity : ρ → String} {valid : ρ → Prop} {m : Map String ρ}

theorem Keyed.empty : Keyed identity valid (Map.empty : Map String ρ) := by
  intro k r h
  cases h

theorem Keyed.set (h : Keyed identity valid m) {r : ρ} {k : String} (hk : k = identity r)
    (hr : valid r) : Keyed identity valid (m.set k r) := by
  intro k' r' h'
  rw [Map.get?_set] at h'
  split at h'
  · next hkk =>
    cases h'
    exact ⟨hkk.trans hk, hr⟩
  · exact h k' r' h'

theorem Keyed.delete (h : Keyed identity valid m) (k : String) : Keyed identity valid (m.delete k) := by
  intro k' r' h'
  rw [Map.get?_delete] at h'
  split at h'
  · cases h'
  · exact h k' r' h'

theorem Keyed.entries (h : Keyed identity valid m) {e : String × ρ} (he : e ∈ m.entries) :
    e.1 = identity e.2 ∧ valid e.2 :=
  h e.1 e.2 (Map.mem_entries_iff.mp he)

theorem Keyed.identities (h : Keyed identity valid m) : m.values.map identity = m.keys := by
  unfold Map.values Map.keys
  rw [map_map]
  exact map_congr_left fun e he => (h.entries he).1.symm

/-- The records of a table are parsed back, one after the other. -/
theorem parseRecords_values {validate : Value → Option ρ} {toValue : ρ → Value}
    {malformed duplicate : String} (hback : ∀ r, valid r → validate (toValue r) = some r) {rs : List ρ}
    {seen : List String} (hvalid : ∀ r ∈ rs, valid r) (hnodup : (rs.map identity).Nodup)
    (hseen : ∀ r ∈ rs, identity r ∉ seen) :
    parseRecords validate identity malformed duplicate seen (rs.map toValue) = .ok rs := by
  induction rs generalizing seen with
  | nil => rfl
  | cons r rs ih =>
    rw [map_cons, nodup_cons] at hnodup
    have hr : identity r ∉ seen := hseen r mem_cons_self
    have hrest : ∀ r' ∈ rs, identity r' ∉ identity r :: seen := by
      intro r' hr' hmem
      rcases mem_cons.mp hmem with heq | hmem
      · exact hnodup.1 (heq ▸ mem_map_of_mem hr')
      · exact hseen r' (mem_cons_of_mem _ hr') hmem
    rw [map_cons, parseRecords, hback r (hvalid r mem_cons_self)]
    dsimp only
    rw [if_neg (by simpa using hr), ih (fun r' h => hvalid r' (mem_cons_of_mem _ h)) hnodup.2 hrest]

theorem Keyed.parseRecords (h : Keyed identity valid m) {validate : Value → Option ρ}
    {toValue : ρ → Value} {malformed duplicate : String}
    (hback : ∀ r, valid r → validate (toValue r) = some r) :
    parseRecords validate identity malformed duplicate [] (m.values.map toValue) = .ok m.values := by
  apply parseRecords_values hback
  · intro r hr
    obtain ⟨k, hk⟩ := Map.mem_values_iff.mp hr
    exact (h k r hk).2
  · rw [h.identities]
    exact m.nodup
  · simp

/-- Setting records of new keys one after another appends them. -/
theorem foldl_set_entries (identity : ρ → String) (es : List (String × ρ)) (acc : Map String ρ)
    (hnodup : ((acc.entries ++ es).map Prod.fst).Nodup) (hid : ∀ e ∈ es, e.1 = identity e.2) :
    ((es.map Prod.snd).foldl (fun m r => m.set (identity r) r) acc).entries = acc.entries ++ es := by
  induction es generalizing acc with
  | nil => simp
  | cons e es ih =>
    have hset : (acc.set (identity e.2) e.2).entries = acc.entries ++ [e] := by
      have happend := Map.entries_set_of_fresh rfl (Map.not_mem_of_nodup hnodup) e.2
      rw [← hid e mem_cons_self]
      exact happend
    rw [map_cons, foldl_cons, ih, hset, append_assoc, singleton_append]
    · rw [hset, append_assoc, singleton_append]
      exact hnodup
    · exact fun e' he' => hid e' (mem_cons_of_mem _ he')

theorem Keyed.mapOf (h : Keyed identity valid m) : mapOf identity m.values = m := by
  apply Map.ext_entries
  have hfold := foldl_set_entries identity m.entries .empty
    (by simpa [Map.empty] using m.nodup) fun e he => (h.entries he).1
  simpa [State.mapOf, Map.values, Map.empty] using hfold

end Keyed

/-! ## What a call writes -/

/-- What a mutation that goes through does to the tables. -/
inductive Wrote (payloadOk : String → Bool) (t : StateTables) : StateMutation → StateTables → Prop
  | putInstallation {v r} (valid : validateInstallation v = some r) :
      Wrote payloadOk t (.putInstallation v)
        { t with installations := t.installations.set r.installationId r }
  | putAdoptedRepository {v r} (valid : validateAdoptedRepository v = some r) :
      Wrote payloadOk t (.putAdoptedRepository v)
        { t with adoptedRepositories := t.adoptedRepositories.set r.identity r }
  | createRun {v r} (valid : validateRun v = some r) (fresh : t.runs.get? r.runId = none) :
      Wrote payloadOk t (.createRun v) { t with runs := t.runs.set r.runId r }
  | transitionRun {runId source target head reason job clock nowMs current patch}
      (finite : finite? clock = some nowMs) (legal : canTransition source target = true)
      (found : t.runs.get? runId = some current) (state : current.state = source)
      (patched : validateRunPatch head reason job = some patch) :
      Wrote payloadOk t (.transitionRun runId source target head reason job clock)
        { t with runs := t.runs.set runId (transitioned current target patch nowMs) }
  | claimIdempotency {key binding clock expiry v r} (valid : validateIdempotencyKey v = some r) :
      Wrote payloadOk t (.claimIdempotency key binding clock expiry)
        { t with idempotencyKeys := t.idempotencyKeys.set r.key r }
  | keepIdempotency {key binding clock expiry} :
      Wrote payloadOk t (.claimIdempotency key binding clock expiry) t
  | releaseIdempotency {key binding clock k} :
      Wrote payloadOk t (.releaseIdempotency key binding clock)
        { t with idempotencyKeys := t.idempotencyKeys.delete k }
  | noIdempotency {key binding clock} : Wrote payloadOk t (.releaseIdempotency key binding clock) t
  | putPublication {v r} (valid : validatePublication payloadOk v = some r) :
      Wrote payloadOk t (.putPublication v) { t with publications := t.publications.set r.jobId r }
  | recordPublicationAttempt {jobId clock outcome detail v entry current next}
      (found : t.publications.get? jobId = some current)
      (valid : validatePublicationHistoryEntry v = some entry)
      (accepted : validatePublication payloadOk (publicationValue (attempted current entry)) = some next) :
      Wrote payloadOk t (.recordPublicationAttempt jobId clock outcome detail)
        { t with publications := t.publications.set jobId next }
  | recordUsage {v r} (valid : validateUsage v = some r) :
      Wrote payloadOk t (.recordUsage v) { t with usage := t.usage.set r.usageId r }
  | keepUsage {v} : Wrote payloadOk t (.recordUsage v) t

section Wrote

variable {payloadOk : String → Bool} {t t' : StateTables}

theorem requireClock_ok {mutation field : String} {value : Value} {x : Number}
    (h : requireClock mutation field value = .ok x) : finite? value = some x := by
  unfold requireClock at h
  split at h
  · next hx =>
    cases h
    exact hx
  · cases h

variable {runId owner : String} {clock key binding : Value} {nowMs ttlMs : Number} {b : Bool}

theorem wrote_transitionRun {source target : JobLifecycleState}
    {head reason job : Value}
    (h : applyMutation payloadOk t (.transitionRun runId source target head reason job clock) = .ok t') :
    Wrote payloadOk t (.transitionRun runId source target head reason job clock) t' := by
  simp only [applyMutation] at h
  obtain ⟨nowMs, hclock, h⟩ := Except.of_bind_ok h
  dsimp only [bind, Except.bind, throw, throwThe, MonadExceptOf.throw] at h
  split at h
  · cases h
  next hlegal =>
  split at h
  · cases h
  next current hfound =>
  split at h
  · cases h
  next hstate =>
  split at h
  · cases h
  next patch hpatch =>
  cases h
  exact .transitionRun (requireClock_ok hclock) (by simpa using hlegal) hfound (by simpa using hstate)
    hpatch

theorem wrote_claimIdempotency {expiry : Value}
    (h : applyMutation payloadOk t (.claimIdempotency key binding clock expiry) = .ok t') :
    Wrote payloadOk t (.claimIdempotency key binding clock expiry) t' := by
  simp only [applyMutation] at h
  obtain ⟨nowMs, -, h⟩ := Except.of_bind_ok h
  split at h
  · cases h
  split at h
  · cases h
  next record hrecord =>
  split at h
  · cases h
    exact .claimIdempotency hrecord
  · split at h
    · cases h
      exact .claimIdempotency hrecord
    · split at h <;> cases h
      exact .keepIdempotency

theorem wrote_releaseIdempotency
    (h : applyMutation payloadOk t (.releaseIdempotency key binding clock) = .ok t') :
    Wrote payloadOk t (.releaseIdempotency key binding clock) t' := by
  simp only [applyMutation] at h
  obtain ⟨nowMs, -, h⟩ := Except.of_bind_ok h
  split at h
  · cases h
  split at h
  · cases h
  split at h
  · cases h
    exact .noIdempotency
  · split at h <;> cases h
    exact .releaseIdempotency

theorem wrote_recordPublicationAttempt {jobId : String} {outcome detail : Value}
    (h : applyMutation payloadOk t (.recordPublicationAttempt jobId clock outcome detail) = .ok t') :
    Wrote payloadOk t (.recordPublicationAttempt jobId clock outcome detail) t' := by
  simp only [applyMutation] at h
  obtain ⟨atMs, -, h⟩ := Except.of_bind_ok h
  split at h
  · cases h
  split at h
  · cases h
  next current hfound =>
  split at h
  · cases h
  next entry hentry =>
  split at h
  · cases h
  next next hnext =>
  cases h
  exact .recordPublicationAttempt hfound hentry hnext

theorem wrote_of_ok {m : StateMutation} (h : applyMutation payloadOk t m = .ok t') :
    Wrote payloadOk t m t' := by
  cases m with
  | putInstallation v =>
    simp only [applyMutation] at h
    split at h
    · cases h
    next r hr =>
    cases h
    exact .putInstallation hr
  | putAdoptedRepository v =>
    simp only [applyMutation] at h
    split at h
    · cases h
    next r hr =>
    cases h
    exact .putAdoptedRepository hr
  | createRun v =>
    simp only [applyMutation] at h
    split at h
    · cases h
    next r hr =>
    split at h
    · cases h
    next hfresh =>
    cases h
    exact .createRun hr (Map.has_eq_false_iff.mp (by simpa using hfresh))
  | transitionRun runId source target head reason job clock => exact wrote_transitionRun h
  | claimIdempotency key binding clock expiry => exact wrote_claimIdempotency h
  | releaseIdempotency key binding clock => exact wrote_releaseIdempotency h
  | putPublication v =>
    simp only [applyMutation] at h
    split at h
    · cases h
    next r hr =>
    cases h
    exact .putPublication hr
  | recordPublicationAttempt jobId clock outcome detail => exact wrote_recordPublicationAttempt h
  | recordUsage v =>
    simp only [applyMutation] at h
    split at h
    · cases h
    next r hr =>
    split at h
    · cases h
      exact .recordUsage hr
    · split at h <;> cases h
      exact .keepUsage
  | unknownKind => cases h

/-- The run with a lease taken or renewed at `nowMs`. -/
def RunRecord.leased (r : RunRecord) (owner : String) (expiry nowMs : Number) : RunRecord :=
  { r with leaseOwner := owner, leaseExpiresAtMs := expiry, updatedAtMs := nowMs }

/-- A lease operation that answers `true` sets the lease of a run that has not ended and that nobody else
holds; one that answers `false` writes nothing. -/
inductive Leased (t : StateTables) (runId owner : String) (nowMs ttlMs : Number) :
    Bool → StateTables → Prop
  | refused : Leased t runId owner nowMs ttlMs false t
  | set {current expiry} (found : t.runs.get? runId = some current)
      (going : isTerminalState current.state = false) (free : current.heldByOther owner nowMs = false)
      (named : isLeaseOwner owner = true) (window : validateLeaseWindow nowMs ttlMs = some expiry) :
      Leased t runId owner nowMs ttlMs true
        { t with runs := t.runs.set runId (current.leased owner expiry nowMs) }

theorem checkLease_ok {operation : String} {expiry : Number}
    (h : checkLease operation owner nowMs ttlMs = .ok expiry) :
    validateLeaseWindow nowMs ttlMs = some expiry ∧ isLeaseOwner owner = true := by
  unfold checkLease at h
  split at h
  · cases h
  next window hwindow =>
  split at h
  · cases h
  next howner =>
  cases h
  exact ⟨hwindow, by simpa using howner⟩

theorem leased_of_claimRun
    (h : claimRun t runId owner nowMs ttlMs = .ok (b, t')) : Leased t runId owner nowMs ttlMs b t' := by
  obtain ⟨expiry, hcheck, h⟩ := Except.of_bind_ok h
  obtain ⟨hwindow, howner⟩ := checkLease_ok hcheck
  split at h
  · cases h
    exact .refused
  next current hfound =>
  split at h
  · cases h
    exact .refused
  next hgoing =>
  split at h
  · cases h
    exact .refused
  next hfree =>
  cases h
  exact .set hfound (by simpa using hgoing) (by simpa using hfree) howner hwindow

/-- A lease that is live belongs to its owner. -/
theorem owner_of_runLeaseIsLive {r : RunRecord}
    (h : runLeaseIsLive r owner nowMs = true) : r.leaseOwner = owner := by
  unfold runLeaseIsLive at h
  grind

theorem leased_of_heartbeatRun
    (h : heartbeatRun t runId owner nowMs ttlMs = .ok (b, t')) :
    Leased t runId owner nowMs ttlMs b t' := by
  obtain ⟨expiry, hcheck, h⟩ := Except.of_bind_ok h
  obtain ⟨hwindow, howner⟩ := checkLease_ok hcheck
  split at h
  · cases h
    exact .refused
  next current hfound =>
  split at h
  · cases h
    exact .refused
  next hgoing =>
  split at h
  · cases h
    exact .refused
  next hlive =>
  have hheld : current.leaseOwner = owner := owner_of_runLeaseIsLive (by simpa using hlive)
  have hrenewed : ({ current with leaseExpiresAtMs := expiry, updatedAtMs := nowMs } : RunRecord) =
      current.leased owner expiry nowMs := by
    rw [← hheld]
    rfl
  cases h
  rw [hrenewed]
  exact .set hfound (by simpa using hgoing) (by simp [RunRecord.heldByOther, hheld]) howner hwindow

end Wrote

/-! ## Records that keep their rules -/

theorem isSafeNonNegativeInteger_iff {x : Number} :
    isSafeNonNegativeInteger x = true ↔ Number.isSafeInteger x = true ∧ 0 ≤ x := by
  simp [isSafeNonNegativeInteger]

variable {nowMs ttlMs expiry : Number} {head reason job : Value} {patch : RunPatch} {r : RunRecord}

theorem validateLeaseWindow_some
    (h : validateLeaseWindow nowMs ttlMs = some expiry) :
    isSafeNonNegativeInteger nowMs = true ∧ isSafeNonNegativeInteger expiry = true ∧
      expiry = nowMs + ttlMs := by
  unfold validateLeaseWindow at h
  split at h
  · cases h
  next hnow =>
  split at h
  · cases h
  next httl =>
  split at h
  · cases h
  next hsum =>
  cases h
  simp only [Bool.not_eq_true', Bool.not_eq_false, Bool.or_eq_true, not_or] at hnow httl hsum
  refine ⟨hnow, ?_, rfl⟩
  rw [isSafeNonNegativeInteger_iff] at hnow httl ⊢
  exact ⟨hsum, Number.zero_le_add hnow.2 httl.1.2⟩

/-- A patch field that is present obeys its rule; an absent one is carried over. -/
theorem patchField_getD {rule : String → Bool} {v : Value} {field : Option String} {old : String}
    (h : patchField rule v = some field) (hold : rule old = true) : rule (field.getD old) = true := by
  unfold patchField at h
  split at h
  · cases h
    exact hold
  · split at h <;> cases h
    assumption
  · cases h

theorem validateRunPatch_some
    (h : validateRunPatch head reason job = some patch) :
    patchField isShaOrEmpty head = some patch.resultHeadSha ∧
      patchField (isOptionalIdentifier reasonMaxChars) reason = some patch.failureReason ∧
      patchField (isOptionalIdentifier 256) job = some patch.supersededByJobId := by
  simp only [validateRunPatch, Option.bind_eq_bind, Option.bind_eq_some_iff] at h
  obtain ⟨head', hhead, reason', hreason, job', hjob, hpatch⟩ := h
  cases hpatch
  exact ⟨hhead, hreason, hjob⟩

/-- A transition whose clock is a safe integer leaves a valid run. -/
theorem validRun_transitioned {target : JobLifecycleState}
    (h : validRun r = true)
    (hpatch : validateRunPatch head reason job = some patch)
    (hnow : isSafeNonNegativeInteger nowMs = true) :
    validRun (transitioned r target patch nowMs) = true := by
  obtain ⟨hhead, hreason, hjob⟩ := validateRunPatch_some hpatch
  have hzero : isSafeNonNegativeInteger 0 = true := by decide
  have hnone : isOptionalIdentifier 64 "" = true := rfl
  simp only [validRun, Bool.and_eq_true] at h ⊢
  obtain ⟨⟨⟨⟨⟨⟨⟨⟨⟨⟨⟨⟨⟨⟨h1, h2⟩, h3⟩, h4⟩, h5⟩, h6⟩, h7⟩, h8⟩, h9⟩, h10⟩, h11⟩, h12⟩, h13⟩, h14⟩, h15⟩ := h
  refine ⟨⟨⟨⟨⟨⟨⟨⟨⟨⟨⟨⟨⟨⟨h1, h2⟩, h3⟩, h4⟩, h5⟩, h6⟩, ?_⟩, ?_⟩, patchField_getD hhead h9⟩,
    patchField_getD hreason h10⟩, patchField_getD hjob h11⟩, h12⟩, hnow⟩, ?_⟩, ?_⟩
  all_goals
    dsimp only [transitioned]
    split <;> assumption

theorem validRun_leased {owner : String}
    (h : validRun r = true) (howner : isLeaseOwner owner = true)
    (hwindow : validateLeaseWindow nowMs ttlMs = some expiry) :
    validRun (r.leased owner expiry nowMs) = true := by
  obtain ⟨hnow, hexpiry, -⟩ := validateLeaseWindow_some hwindow
  have howner' : isOptionalIdentifier 64 owner = true := by
    simpa [isOptionalIdentifier, isLeaseOwner] using .inr howner
  simp only [validRun, Bool.and_eq_true] at h ⊢
  obtain ⟨⟨⟨⟨⟨⟨⟨⟨⟨⟨⟨⟨⟨⟨h1, h2⟩, h3⟩, h4⟩, h5⟩, h6⟩, h7⟩, h8⟩, h9⟩, h10⟩, h11⟩, h12⟩, h13⟩, h14⟩, h15⟩ := h
  exact ⟨⟨⟨⟨⟨⟨⟨⟨⟨⟨⟨⟨⟨⟨h1, h2⟩, h3⟩, h4⟩, h5⟩, h6⟩, howner'⟩, hexpiry⟩, h9⟩, h10⟩, h11⟩, h12⟩, hnow⟩, h14⟩,
    h15⟩

/-- A publication with a valid history goes through its validator as itself. -/
theorem eq_of_validatePublication {payloadOk : String → Bool} {r r' : PublicationRecord}
    (hhistory : ∀ e ∈ r.history, validHistoryEntry e = true)
    (h : validatePublication payloadOk (publicationValue r) = some r') : r' = r := by
  rw [validatePublication, readPublication_publicationValue hhistory] at h
  exact (Option.some.inj (Option.filter_eq_some_iff.mp h).1).symm

/-- Every record of every table is valid and stands under its own identity. -/
structure TablesOk (payloadOk : String → Bool) (t : StateTables) : Prop where
  installations : Keyed (·.installationId) (validInstallation · = true) t.installations
  adoptedRepositories : Keyed (·.identity) (validAdoptedRepository · = true) t.adoptedRepositories
  runs : Keyed (·.runId) (validRun · = true) t.runs
  idempotencyKeys : Keyed (·.key) (validIdempotencyKey · = true) t.idempotencyKeys
  publications : Keyed (·.jobId) (PublicationOk payloadOk) t.publications
  usage : Keyed (·.usageId) (validUsage · = true) t.usage

/-- The clock of a transition, if it is finite, is a safe non-negative integer: what every other write
checks of its times. -/
def SafeClock : StateMutation → Prop
  | .transitionRun _ _ _ _ _ _ nowMs => (finite? nowMs).all isSafeNonNegativeInteger = true
  | _ => True

/-- Every transition of the call has a safe clock. -/
def SafeClocks : StoreCall → Prop
  | .apply batch => ∀ m ∈ batch, SafeClock m
  | _ => True

section TablesOk

variable {payloadOk : String → Bool} {t t' : StateTables}

theorem TablesOk.empty : TablesOk payloadOk .empty :=
  ⟨.empty, .empty, .empty, .empty, .empty, .empty⟩

theorem TablesOk.wrote {m : StateMutation} (h : TablesOk payloadOk t) (hm : SafeClock m)
    (hw : Wrote payloadOk t m t') : TablesOk payloadOk t' := by
  cases hw with
  | putInstallation valid =>
    exact { h with installations := h.installations.set rfl (valid_of_filter valid) }
  | putAdoptedRepository valid =>
    exact { h with adoptedRepositories := h.adoptedRepositories.set rfl (valid_of_filter valid) }
  | createRun valid fresh => exact { h with runs := h.runs.set rfl (valid_of_filter valid) }
  | @transitionRun _ _ _ _ _ _ _ nowMs _ _ finite legal found state patched =>
    obtain ⟨hkey, hvalid⟩ := h.runs _ _ found
    have hnow : isSafeNonNegativeInteger nowMs = true := by simpa [SafeClock, finite] using hm
    exact { h with runs := h.runs.set hkey (validRun_transitioned hvalid patched hnow) }
  | claimIdempotency valid =>
    exact { h with idempotencyKeys := h.idempotencyKeys.set rfl (valid_of_filter valid) }
  | keepIdempotency => exact h
  | releaseIdempotency => exact { h with idempotencyKeys := h.idempotencyKeys.delete _ }
  | noIdempotency => exact h
  | putPublication valid =>
    exact { h with publications := h.publications.set rfl (publicationOk_of_validate valid) }
  | @recordPublicationAttempt _ _ _ _ _ entry current next found valid accepted =>
    obtain ⟨hkey, -, hhistory⟩ := h.publications _ _ found
    have hnext := eq_of_validatePublication (fun e he => by
      rcases mem_append.mp (mem_of_mem_drop he) with he | he
      · exact hhistory e he
      · rw [mem_singleton.mp he]
        exact valid_of_filter valid) accepted
    have hid : current.jobId = next.jobId := hnext ▸ rfl
    exact { h with publications := h.publications.set (hkey.trans hid) (publicationOk_of_validate accepted) }
  | recordUsage valid => exact { h with usage := h.usage.set rfl (valid_of_filter valid) }
  | keepUsage => exact h

theorem TablesOk.leased {runId owner : String} {nowMs ttlMs : Number} {b : Bool}
    (h : TablesOk payloadOk t) (hl : Leased t runId owner nowMs ttlMs b t') : TablesOk payloadOk t' := by
  cases hl with
  | refused => exact h
  | set found going free named window =>
    obtain ⟨hkey, hvalid⟩ := h.runs _ _ found
    exact { h with runs := h.runs.set hkey (validRun_leased hvalid named window) }

/-- A call keeps the rules, given that its transitions have safe clocks. -/
theorem tablesOk_step {c : StoreCall} (h : TablesOk payloadOk t) (hc : SafeClocks c) :
    TablesOk payloadOk (step payloadOk t c) := by
  unfold step
  split
  · next b t' hperform =>
    cases c with
    | apply batch =>
      obtain ⟨t'', hbatch, heq⟩ := Except.of_map_ok hperform
      cases heq
      exact Except.foldlM_mem_invariant (fun s m hm s' hs hs' => hs.wrote (hc m hm) (wrote_of_ok hs')) h
        hbatch
    | claimRun runId owner nowMs ttlMs => exact h.leased (leased_of_claimRun hperform)
    | heartbeatRun runId owner nowMs ttlMs => exact h.leased (leased_of_heartbeatRun hperform)
  · exact h

/-- Valid tables are exported and parsed back as they were. -/
theorem parseStateExport_exportState (h : TablesOk payloadOk t) :
    parseStateExport payloadOk (exportValue (exportState t)) = .ok (exportState t) := by
  have hversion : ((1 : Number) == 1) = true := by decide
  simp [parseStateExport, exportValue, requireArray, exportState, Value.get, lookup_cons, hversion,
    h.installations.parseRecords fun r => validateInstallation_installationValue,
    h.adoptedRepositories.parseRecords fun r => validateAdoptedRepository_adoptedRepositoryValue,
    h.runs.parseRecords fun r => validateRun_runValue,
    h.idempotencyKeys.parseRecords fun r => validateIdempotencyKey_idempotencyKeyValue,
    h.publications.parseRecords fun r => validatePublication_publicationValue,
    h.usage.parseRecords fun r => validateUsage_usageValue, bind, Except.bind, pure, Except.pure]

/-- Seeding rebuilds the tables. -/
theorem seededTables_exportState (h : TablesOk payloadOk t) : seededTables (exportState t) = t := by
  simp only [seededTables, exportState, h.installations.mapOf, h.adoptedRepositories.mapOf, h.runs.mapOf,
    h.idempotencyKeys.mapOf, h.publications.mapOf, h.usage.mapOf]

theorem seed_exportState (h : TablesOk payloadOk t) :
    seedControlPlaneStore payloadOk (exportValue (exportState t)) = .ok t := by
  rw [seedControlPlaneStore, parseStateExport_exportState h]
  change newStore payloadOk (exportState t) = .ok t
  rw [newStore, parseStateExport_exportState h, Except.map, seededTables_exportState h]

/-- Parsed records obey their rules. -/
theorem valid_of_parseRecords {ρ : Type} {validate : Value → Option ρ} {valid : ρ → Prop}
    {identity : ρ → String} {malformed duplicate : String} {vs : List Value} {seen : List String}
    {rs : List ρ} (h : parseRecords validate identity malformed duplicate seen vs = .ok rs)
    (hvalid : ∀ v r, validate v = some r → valid r) : ∀ r ∈ rs, valid r := by
  induction vs generalizing seen rs with
  | nil =>
    cases h
    simp
  | cons v vs ih =>
    rw [parseRecords] at h
    split at h
    · cases h
    next r hr =>
    split at h
    · cases h
    split at h
    · cases h
    next rest hrest =>
    cases h
    exact forall_mem_cons.mpr ⟨hvalid v r hr, ih hrest⟩

theorem Keyed.of_mapOf {ρ : Type} {identity : ρ → String} {valid : ρ → Prop} {rs : List ρ}
    (h : ∀ r ∈ rs, valid r) : Keyed identity valid (State.mapOf identity rs) := by
  unfold State.mapOf
  suffices hfold : ∀ m : Map String ρ, Keyed identity valid m →
      Keyed identity valid (rs.foldl (fun m r => m.set (identity r) r) m) from hfold _ .empty
  induction rs with
  | nil => exact fun m hm => hm
  | cons r rs ih =>
    intro m hm
    exact ih (fun r' hr' => h r' (mem_cons_of_mem _ hr')) _ (hm.set rfl (h r mem_cons_self))

/-- A store that was built from an export holds valid records. -/
theorem tablesOk_newStore {seed : StateExport} (h : newStore payloadOk seed = .ok t) :
    TablesOk payloadOk t := by
  obtain ⟨e, he, rfl⟩ := Except.of_map_ok h
  simp only [parseStateExport, exportValue, Value.get, lookup_cons, lookup_nil] at he
  -- the six arrays, and then the records of each
  iterate 6 obtain ⟨_, -, he⟩ := Except.of_bind_ok he
  obtain ⟨_, hinstallations, he⟩ := Except.of_bind_ok he
  obtain ⟨_, hadoptedRepositories, he⟩ := Except.of_bind_ok he
  obtain ⟨_, hruns, he⟩ := Except.of_bind_ok he
  obtain ⟨_, hidempotencyKeys, he⟩ := Except.of_bind_ok he
  obtain ⟨_, hpublications, he⟩ := Except.of_bind_ok he
  obtain ⟨_, husage, he⟩ := Except.of_bind_ok he
  cases he
  exact {
    installations := .of_mapOf (valid_of_parseRecords hinstallations fun v r => valid_of_filter)
    adoptedRepositories :=
      .of_mapOf (valid_of_parseRecords hadoptedRepositories fun v r => valid_of_filter)
    runs := .of_mapOf (valid_of_parseRecords hruns fun v r => valid_of_filter)
    idempotencyKeys := .of_mapOf (valid_of_parseRecords hidempotencyKeys fun v r => valid_of_filter)
    publications := .of_mapOf (valid_of_parseRecords hpublications fun v r => publicationOk_of_validate)
    usage := .of_mapOf (valid_of_parseRecords husage fun v r => valid_of_filter) }

end TablesOk

/-! ## Reload -/

/-- A store that was just built: empty, or from the records of an export. -/
inductive Opened (payloadOk : String → Bool) : StateTables → Prop
  | empty : Opened payloadOk .empty
  | seeded {seed t} (h : newStore payloadOk seed = .ok t) : Opened payloadOk t

/-- The export is parsed back as itself, and the store seeded from it holds the same tables. -/
def Reloads (payloadOk : String → Bool) (t : StateTables) : Prop :=
  parseStateExport payloadOk (exportValue (exportState t)) = .ok (exportState t) ∧
    seedControlPlaneStore payloadOk (exportValue (exportState t)) = .ok t

/-- Along every run whose transitions have safe clocks, the state reloads. -/
theorem reloads_run {payloadOk : String → Bool} {t : StateTables} (ht : Opened payloadOk t)
    {calls : List StoreCall} (hclocks : ∀ c ∈ calls, SafeClocks c) :
    Reloads payloadOk (Machine.run (step payloadOk) t calls) := by
  have hopened : TablesOk payloadOk t := by
    cases ht with
    | empty => exact .empty
    | seeded h => exact tablesOk_newStore h
  have halong : Machine.Along (step payloadOk) (fun _ c => SafeClocks c) t calls :=
    Machine.along_of_mem fun _ => hclocks
  have hok := halong.invariant (fun t c ht hc => tablesOk_step ht hc) hopened
  exact ⟨parseStateExport_exportState hok, seed_exportState hok⟩

/-- A queued run. -/
def queuedRun : RunRecord where
  runId := "run-1"
  jobId := "job-1"
  kind := .review
  state := .queued
  executorIdentity := "local"
  attempt := 0
  headSha := "0123abc"
  configFingerprint := ""
  leaseOwner := ""
  leaseExpiresAtMs := 0
  resultHeadSha := ""
  failureReason := ""
  supersededByJobId := ""
  createdAtMs := 1000
  updatedAtMs := 1000
  startedAtMs := 0
  finishedAtMs := 0

/-- A run is created and started at `nowMs`. -/
def startedAt (nowMs : Number) : List StoreCall :=
  [.apply [.createRun (runValue queuedRun)],
   .apply [.transitionRun "run-1" .queued .starting .undefined .undefined .undefined (.number nowMs)]]

theorem reloads_run_startedAt :
    Reloads (fun _ => true) (Machine.run (step fun _ => true) .empty (startedAt 2000)) :=
  reloads_run .empty (by
    simp only [startedAt, forall_mem_cons, SafeClocks, SafeClock]
    exact ⟨by simp, ⟨by decide, by simp⟩, by simp⟩)

/-- A transition at a time between two milliseconds goes through, and its run is refused on reload. -/
theorem startedAt_not_reloads :
    ¬ Reloads (fun _ => true) (Machine.run (step fun _ => true) .empty (startedAt (3 / 2))) := by
  intro h
  have hrefused : (parseStateExport (fun _ => true) (exportValue (exportState
      (Machine.run (step fun _ => true) .empty (startedAt (3 / 2)))))).isOk = false := by
    decide +kernel
  rw [h.1] at hrefused
  cases hrefused

end PrReviewer.State
