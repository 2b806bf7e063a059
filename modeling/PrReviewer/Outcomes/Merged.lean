import PrReviewer.Outcomes.Reconcile

/-!
# The ledger after a run

`Precedes`: the instants of the prior ledger are before the run. Then the ledger that the run leaves is
what it was, without duplicates, and after it the run's own events (`chronological_derive`): these decide.
`filter_current` says which of them speak of the status of an identity.
-/

namespace PrReviewer.Outcomes

open Js List

theorem mem_chronological {dateParse : String → Option Int} {events : List OutcomeEvent}
    {e : OutcomeEvent} : e ∈ chronological dateParse events ↔ e ∈ events :=
  mem_insertionSort _

namespace DeriveOutcomeOptions

variable (dateParse : String → Option Int) (o : DeriveOutcomeOptions)

/-! ## The run's own events -/

@[simp] theorem event_at' (identity : String) (kind : OutcomeEventKind)
    (provenance : OutcomeProvenance) : (o.event identity kind provenance).at' = some o.at' := rfl

@[simp] theorem event_finding_id (identity : String) (kind : OutcomeEventKind)
    (provenance : OutcomeProvenance) : (o.event identity kind provenance).finding_id = identity := rfl

@[simp] theorem event_kind (identity : String) (kind : OutcomeEventKind)
    (provenance : OutcomeProvenance) : (o.event identity kind provenance).kind = kind := rfl

@[simp] theorem closed_at' (identity : String) : (o.closed identity).at' = some o.at' := by
  unfold closed
  split <;> rfl

@[simp] theorem closed_finding_id (identity : String) : (o.closed identity).finding_id = identity := by
  unfold closed
  split <;> rfl

theorem closed_kind (identity : String) :
    (o.closed identity).kind = if o.headAdvanced then .resolved else .dismissed := by
  unfold closed
  split <;> rfl

variable {dateParse o}

variable {e : OutcomeEvent}

theorem mem_feedbackEvents (h : e ∈ o.feedbackEvents) :
    e.at' = some o.at' ∧ e.kind = .feedback := by
  obtain ⟨⟨identity, current⟩, -, he⟩ := mem_flatMap.mp h
  rcases mem_append.mp he with he | he
  all_goals
    unfold feedbackEvent at he
    split at he
    · cases he
    · rw [mem_singleton.mp he]
      exact ⟨rfl, rfl⟩

theorem at'_of_mem_current (h : e ∈ deriveCurrentEvents dateParse o) :
    e.at' = some o.at' := by
  unfold deriveCurrentEvents at h
  rcases mem_append.mp h with h | h
  · rcases mem_append.mp h with h | h
    · rcases mem_append.mp h with h | h
      · obtain ⟨ob, -, hob⟩ := mem_filterMap.mp h
        obtain ⟨resolved, -, rfl⟩ := Option.map_eq_some_iff.mp hob
        split <;> simp
      · obtain ⟨identity, -, rfl⟩ := mem_map.mp h
        rfl
    · exact (mem_feedbackEvents h).1
  · cases hp : o.priorLedger with
    | none => simp [hp] at h
    | some priorLedger =>
      simp only [hp] at h
      obtain ⟨x, -, rfl⟩ := mem_map.mp h
      rfl

/-! ## Before and after -/

variable (dateParse o)

/-- The instants of the prior ledger are before the run. -/
def Precedes : Prop :=
  ∀ priorLedger, o.priorLedger = some priorLedger → ∀ e ∈ priorLedger,
    outcomeEventInstant dateParse e.at' < outcomeEventInstant dateParse (some o.at')

/-- The ledger is not full. -/
def Fits : Prop :=
  ∀ priorLedger, o.priorLedger = some priorLedger →
    (mergedEvents priorLedger (deriveCurrentEvents dateParse o)).length ≤ MAX_LEDGER_EVENTS

/-- What the run finds in the ledger. -/
def old : List OutcomeEvent := (o.priorLedger.map (distinctBy eventKey)).getD []

/-- What the run adds. -/
def own : List OutcomeEvent :=
  if o.priorLedger = none then deriveCurrentEvents dateParse o
  else distinctBy eventKey (deriveCurrentEvents dateParse o)

variable {dateParse o}

theorem own_subset (h : e ∈ o.own dateParse) :
    e ∈ deriveCurrentEvents dateParse o := by
  unfold own at h
  split at h
  · exact h
  · exact distinctBy_sublist.subset h

variable (dateParse) in
theorem eventKey_ne {d : OutcomeEvent}
    (h : outcomeEventInstant dateParse e.at' < outcomeEventInstant dateParse d.at') :
    eventKey d ≠ eventKey e := by
  intro heq
  have hat : d.at'.getD "" = e.at'.getD "" := congrArg EventKey.at' heq
  have hsame : outcomeEventInstant dateParse d.at' = outcomeEventInstant dateParse e.at' := by
    have hempty : trim "" = "" := by decide
    cases hd : d.at' with
    | none =>
      cases he : e.at' with
      | none => rfl
      | some t =>
        rw [hd, he, Option.getD_none, Option.getD_some] at hat
        simp [outcomeEventInstant, ← hat, hempty]
    | some t =>
      cases he : e.at' with
      | none =>
        rw [hd, he, Option.getD_none, Option.getD_some] at hat
        simp [outcomeEventInstant, hat, hempty]
      | some t' =>
        rw [hd, he, Option.getD_some, Option.getD_some] at hat
        rw [hat]
  exact absurd h (by rw [hsame]; exact lt_irrefl _)

theorem mergedEvents_eq (hp : o.Precedes dateParse) {priorLedger : List OutcomeEvent}
    (hprior : o.priorLedger = some priorLedger) :
    mergedEvents priorLedger (deriveCurrentEvents dateParse o) = o.old ++ o.own dateParse := by
  unfold mergedEvents old own
  simp only [hprior, Option.map_some, Option.getD_some, reduceCtorEq, if_false]
  refine distinctBy_append fun b hb hmem => ?_
  obtain ⟨e, he, hkey⟩ := mem_map.mp hmem
  refine (eventKey_ne dateParse ?_ : eventKey b ≠ eventKey e) hkey.symm
  rw [at'_of_mem_current hb]
  exact hp priorLedger hprior e he

theorem derive_eq (hp : o.Precedes dateParse) (hf : o.Fits dateParse) :
    deriveOutcomeEvents dateParse o = o.old ++ o.own dateParse := by
  unfold deriveOutcomeEvents
  cases hprior : o.priorLedger with
  | none => simp [old, own, hprior]
  | some priorLedger =>
    have hfit := hf priorLedger hprior
    simp only [mergeLedger, if_pos hfit]
    exact mergedEvents_eq hp hprior

theorem old_precedes (hp : o.Precedes dateParse) {e : OutcomeEvent} (h : e ∈ o.old) :
    outcomeEventInstant dateParse e.at' < outcomeEventInstant dateParse (some o.at') := by
  unfold old at h
  cases hprior : o.priorLedger with
  | none => simp [hprior] at h
  | some priorLedger =>
    simp only [hprior, Option.map_some, Option.getD_some] at h
    exact hp priorLedger hprior e (distinctBy_sublist.subset h)

/-- The events of the run come last. -/
theorem chronological_derive (hp : o.Precedes dateParse) (hf : o.Fits dateParse) :
    chronological dateParse (deriveOutcomeEvents dateParse o) =
      chronological dateParse o.old ++ o.own dateParse := by
  rw [derive_eq hp hf]
  refine insertionSort_append (fun a ha b hb => ?_) ?_
  · rw [at'_of_mem_current (own_subset hb)]
    exact (old_precedes hp ha).le
  · apply pairwise_of_forall_mem_list
    intro a ha b hb
    rw [at'_of_mem_current (own_subset ha), at'_of_mem_current (own_subset hb)]

/-! ## The events about the status of one identity -/

/-- An event of the identity that gives it a status. -/
def tellsStatus (identity : String) (e : OutcomeEvent) : Bool :=
  e.finding_id = identity && isStatusKind e.kind

variable (dateParse o) in
/-- The identity is live in the prior ledger, and this run did not meet it. -/
def lost (identity : String) : Bool :=
  !o.observed identity && (o.priorLedger.bind fun priorLedger =>
    (lastStatus dateParse priorLedger).get? identity).any isOpenKind

/-- What the threads of the identity show, newest comment first. -/
def threadStates (o : DeriveOutcomeOptions) (identity : String) : List Bool :=
  (o.prior.filter (·.findingId = identity)).filterMap (·.resolved)

/-- The event of a thread in that state. -/
def stateEvent (o : DeriveOutcomeOptions) (identity : String) (resolved : Bool) : OutcomeEvent :=
  if resolved then o.closed identity else o.event identity .still_open .forgeThread

def reportEvent (o : DeriveOutcomeOptions) (identity : String) : OutcomeEvent :=
  o.event identity (if o.prior.any (·.findingId = identity) then .repeated else .reported)
    .currentReview

def reportIfPosted (o : DeriveOutcomeOptions) (identity : String) : List OutcomeEvent :=
  if identity ∈ o.postedIdentities then [o.reportEvent identity] else []

variable (dateParse) in
def unknownIfLost (o : DeriveOutcomeOptions) (identity : String) : List OutcomeEvent :=
  if o.lost dateParse identity then [o.event identity .unknown .priorLedger] else []

theorem stateEvent_tells (identity : String) (resolved : Bool) :
    isStatusKind (o.stateEvent identity resolved).kind = true ∧
      (o.stateEvent identity resolved).finding_id = identity := by
  cases resolved with
  | false => exact ⟨rfl, rfl⟩
  | true =>
    simp only [stateEvent, if_true, closed_finding_id, closed_kind, and_true]
    split <;> rfl

theorem filter_threadEvents (identity : String) : o.threadEvents.filter (tellsStatus identity) =
    (o.threadStates identity).map (o.stateEvent identity) := by
  unfold threadEvents threadStates
  induction o.prior with
  | nil => rfl
  | cons ob prior ih =>
    rw [filterMap_cons]
    cases hr : ob.resolved with
    | none =>
      rw [show o.threadEvent ob = none by simp [threadEvent, hr], ih, filter_cons]
      split <;> simp [hr]
    | some resolved =>
      have hev : o.threadEvent ob = some (o.stateEvent ob.findingId resolved) := by
        simp [threadEvent, hr, stateEvent]
      obtain ⟨hkind, hid⟩ := o.stateEvent_tells ob.findingId resolved
      rw [hev, filter_cons, filter_cons, tellsStatus, hkind, hid, Bool.and_true, ih]
      by_cases hob : ob.findingId = identity
      · simp [hob, hr]
      · simp [hob]

/-- Of a list of distinct names, those that are one name. -/
theorem filter_map_eq_of_nodup {xs : List String} {f : String → OutcomeEvent} (hn : xs.Nodup)
    (hf : ∀ x, (f x).finding_id = x ∧ isStatusKind (f x).kind = true) (identity : String) :
    (xs.map f).filter (tellsStatus identity) = if identity ∈ xs then [f identity] else [] := by
  have hcomp : (tellsStatus identity ∘ f) = fun x => decide (x = identity) := by
    funext x
    simp [tellsStatus, hf x]
  rw [filter_map, hcomp, filter_eq, hn.count]
  split <;> rfl

theorem filter_reportEvents (identity : String) :
    o.reportEvents.filter (tellsStatus identity) = o.reportIfPosted identity := by
  have hn : (distinctBy id o.postedIdentities).Nodup := by
    have h : ((distinctBy id o.postedIdentities).map id).Nodup := nodup_distinctBy
    simpa using h
  have hmem : identity ∈ distinctBy id o.postedIdentities ↔ identity ∈ o.postedIdentities := by
    have h : identity ∈ (distinctBy id o.postedIdentities).map id ↔ identity ∈ o.postedIdentities.map id :=
      mem_keys_distinctBy
    simpa using h
  have hreport : ∀ x, (o.reportEvent x).finding_id = x ∧ isStatusKind (o.reportEvent x).kind = true := by
    intro x
    unfold reportEvent
    split <;> exact ⟨rfl, rfl⟩
  have hfilter := filter_map_eq_of_nodup hn hreport identity
  simp only [hmem] at hfilter
  exact hfilter

theorem filter_feedbackEvents (identity : String) :
    o.feedbackEvents.filter (tellsStatus identity) = [] := by
  rw [filter_eq_nil_iff]
  intro e he
  simp [tellsStatus, (mem_feedbackEvents he).2, isStatusKind, statusOfKind]

theorem filter_unknownEvents {priorLedger : List OutcomeEvent} (hprior : o.priorLedger = some priorLedger)
    (identity : String) : (o.unknownEvents dateParse priorLedger).filter (tellsStatus identity) =
      o.unknownIfLost dateParse identity := by
  let entries := (lastStatus dateParse priorLedger).entries.filter fun entry =>
    !o.observed entry.1 && isOpenKind entry.2
  have hn : (entries.map Prod.fst).Nodup :=
    (lastStatus dateParse priorLedger).nodup.sublist (filter_sublist.map _)
  have hmem : identity ∈ entries.map Prod.fst ↔ o.lost dateParse identity = true := by
    simp only [entries, lost, hprior, Option.bind_some, mem_map, mem_filter, Prod.exists,
      Map.mem_entries_iff, Bool.and_eq_true, Option.any_eq_true]
    constructor
    · rintro ⟨i, kind, ⟨hget, hobs, hopen⟩, rfl⟩
      exact ⟨hobs, kind, hget, hopen⟩
    · rintro ⟨hobs, kind, hget, hopen⟩
      exact ⟨identity, kind, ⟨hget, hobs, hopen⟩, rfl⟩
  have hmap : o.unknownEvents dateParse priorLedger =
      (entries.map Prod.fst).map fun identity => o.event identity .unknown .priorLedger := by
    rw [map_map]
    rfl
  rw [hmap, filter_map_eq_of_nodup hn (fun x => ⟨rfl, rfl⟩)]
  simp only [hmem]
  rfl

/-- The run's events about the status of an identity: what its threads show, its report, and that it is lost. -/
theorem filter_current (identity : String) :
    (deriveCurrentEvents dateParse o).filter (tellsStatus identity) =
      (o.threadStates identity).map (o.stateEvent identity) ++ o.reportIfPosted identity ++
        o.unknownIfLost dateParse identity := by
  unfold deriveCurrentEvents
  rw [filter_append, filter_append, filter_append, filter_threadEvents,
    filter_reportEvents, filter_feedbackEvents, append_nil]
  congr 1
  cases hprior : o.priorLedger with
  | none => simp [unknownIfLost, lost, hprior]
  | some priorLedger => exact filter_unknownEvents hprior identity

end DeriveOutcomeOptions

end PrReviewer.Outcomes
