import PrReviewer.Outcomes.Merged

/-!
# Outcomes claim no more than was observed

`Honest` is what the aggregate of a run's ledger promises: what is posted, or has an open thread, counts as
open; what the run resolves was seen resolved and nowhere open, under a head that advanced; what it loses
was live and is gone; reactions change nothing. Status goes by the last event of an instant
(`deciding_derive`), and the observations stand newest first: so `Honest` holds exactly where the threads of
an identity that is not posted agree or happen to stand in the right order (`Settled`).
-/

namespace PrReviewer.Outcomes

open Js List

variable (dateParse : String → Option Int)

/-- The event that decides the status of an identity. -/
def deciding (events : List OutcomeEvent) (identity : String) : Option OutcomeEvent :=
  ((chronological dateParse events).filter
    (DeriveOutcomeOptions.tellsStatus identity)).getLast?

/-- The same run, nobody having reacted. -/
def DeriveOutcomeOptions.withoutReactions (o : DeriveOutcomeOptions) : DeriveOutcomeOptions :=
  { o with prior := o.prior.map fun observation => { observation with reactions := ⟨0, 0⟩ } }

structure Honest (o : DeriveOutcomeOptions) : Prop where
  posted : ∀ identity ∈ o.postedIdentities,
    (statuses dateParse (deriveOutcomeEvents dateParse o)).get? identity = some .open
  openThread : ∀ observation ∈ o.prior, observation.resolved = some false →
    (statuses dateParse (deriveOutcomeEvents dateParse o)).get? observation.findingId = some .open
  resolved : ∀ identity, ∀ e ∈ deriveCurrentEvents dateParse o,
    deciding dateParse (deriveOutcomeEvents dateParse o) identity = some e → e.kind = .resolved →
    (∃ observation ∈ o.prior, observation.findingId = identity ∧ observation.resolved = some true) ∧
    (¬∃ observation ∈ o.prior, observation.findingId = identity ∧ observation.resolved = some false) ∧
    identity ∉ o.postedIdentities ∧ ∃ head, o.priorHeadSha = some head ∧ trim head ≠ "" ∧
      trim o.currentHeadSha ≠ "" ∧ head ≠ o.currentHeadSha
  unknown : ∀ identity, ∀ e ∈ deriveCurrentEvents dateParse o,
    deciding dateParse (deriveOutcomeEvents dateParse o) identity = some e → e.kind = .unknown →
    (∃ priorLedger, o.priorLedger = some priorLedger ∧
      (statuses dateParse priorLedger).get? identity = some .open) ∧
    identity ∉ o.postedIdentities ∧ ∀ observation ∈ o.prior, observation.findingId ≠ identity
  reactions : statuses dateParse (deriveOutcomeEvents dateParse o) =
      statuses dateParse (deriveOutcomeEvents dateParse o.withoutReactions) ∧
    adjudications dateParse (deriveOutcomeEvents dateParse o) =
      adjudications dateParse (deriveOutcomeEvents dateParse o.withoutReactions)

/-- Where an identity that is not posted has an open thread, the order of its observations lets it win:
without a ledger it is the last, with one the first is a resolved one or none is resolved. -/
def Settled (o : DeriveOutcomeOptions) : Prop :=
  ∀ identity, identity ∉ o.postedIdentities → false ∈ o.threadStates identity →
    if o.priorLedger = none then (o.threadStates identity).getLast? = some false
    else true ∈ o.threadStates identity → (o.threadStates identity).head? = some true

variable {dateParse}

/-! ## Who decides -/

theorem getLast?_filterMap {α β : Type} {f : α → Option β} {xs : List α}
    (h : ∀ x ∈ xs, (f x).isSome = true) : (xs.filterMap f).getLast? = xs.getLast?.bind f := by
  induction xs using List.reverseRecOn with
  | nil => rfl
  | append_singleton xs x ih =>
    obtain ⟨y, hy⟩ := Option.isSome_iff_exists.mp (h x (by simp))
    rw [filterMap_append, List.getLast?_concat, Option.bind_some, hy]
    simp [hy]

theorem statuses_get? (events : List OutcomeEvent) (identity : String) :
    (statuses dateParse events).get? identity =
      (deciding dateParse events identity).bind fun e => statusOfKind e.kind := by
  have hsplit : saidOf (·.finding_id) (fun e => statusOfKind e.kind)
      (chronological dateParse events) identity =
      ((chronological dateParse events).filter
        (DeriveOutcomeOptions.tellsStatus identity)).filterMap fun e => statusOfKind e.kind := by
    unfold saidOf
    rw [← filterMap_eq_filter, ← filterMap_eq_filter, filterMap_filterMap,
      filterMap_filterMap]
    congr 1
    funext e
    cases hk : statusOfKind e.kind <;>
      by_cases he : e.finding_id = identity <;>
      simp [DeriveOutcomeOptions.tellsStatus, isStatusKind, hk, he, Option.guard]
  rw [statuses, get?_latest, hsplit]
  refine getLast?_filterMap fun e he => ?_
  have := (mem_filter.mp he).2
  simp only [DeriveOutcomeOptions.tellsStatus, isStatusKind, Bool.and_eq_true] at this
  exact this.2

theorem lastStatus_get? (events : List OutcomeEvent) (identity : String) :
    (lastStatus dateParse events).get? identity =
      (deciding dateParse events identity).map (·.kind) := by
  have hsplit : saidOf (·.finding_id) (fun e => if isStatusKind e.kind then some e.kind else none)
      (chronological dateParse events) identity =
      ((chronological dateParse events).filter
        (DeriveOutcomeOptions.tellsStatus identity)).map (·.kind) := by
    unfold saidOf
    rw [← filterMap_eq_filter, ← filterMap_eq_filter, filterMap_filterMap,
      map_filterMap]
    congr 1
    funext e
    cases hk : isStatusKind e.kind <;>
      by_cases he : e.finding_id = identity <;>
      simp [DeriveOutcomeOptions.tellsStatus, hk, he, Option.guard]
  rw [lastStatus, get?_latest, hsplit, List.getLast?_map]
  rfl

namespace DeriveOutcomeOptions

variable {o : DeriveOutcomeOptions}

theorem deciding_derive (hp : o.Precedes dateParse) (hf : o.Fits dateParse) (identity : String) :
    deciding dateParse (deriveOutcomeEvents dateParse o) identity =
      ((o.own dateParse).filter (tellsStatus identity)).getLast?.or
        (deciding dateParse o.old identity) := by
  rw [deciding, chronological_derive hp hf, filter_append, List.getLast?_append]
  rfl

variable {identity : String} {e : OutcomeEvent} {resolved : Bool}

theorem tellsStatus_eq_of_key {d : OutcomeEvent} (h : eventKey d = eventKey e) :
    tellsStatus identity d = tellsStatus identity e := by
  have hid : d.finding_id = e.finding_id := congrArg EventKey.finding_id h
  have hkind : d.kind = e.kind := congrArg EventKey.kind h
  simp only [tellsStatus, hid, hkind]

theorem filter_own (identity : String) : (o.own dateParse).filter (tellsStatus identity) =
    if o.priorLedger = none then (deriveCurrentEvents dateParse o).filter (tellsStatus identity)
    else distinctBy eventKey ((deriveCurrentEvents dateParse o).filter (tellsStatus identity)) := by
  unfold own
  split
  · rfl
  · exact filter_distinctBy fun d _ e _ h => tellsStatus_eq_of_key h

theorem lost_eq_false (h : o.observed identity = true) :
    o.lost dateParse identity = false := by
  simp [lost, h]

/-- A posted identity is decided by its report. -/
theorem getLast?_own_of_posted (h : identity ∈ o.postedIdentities) :
    ((o.own dateParse).filter (tellsStatus identity)).getLast? = some (o.reportEvent identity) := by
  have hobserved : o.observed identity = true := by simp [observed, h]
  have hfilter : (deriveCurrentEvents dateParse o).filter (tellsStatus identity) =
      (o.threadStates identity).map (o.stateEvent identity) ++ [o.reportEvent identity] := by
    rw [filter_current, reportIfPosted, if_pos h, unknownIfLost, lost_eq_false hobserved]
    simp
  rw [filter_own, hfilter]
  split
  · exact List.getLast?_concat
  · rw [distinctBy_append, List.getLast?_append]
    · rfl
    · intro b hb hmem
      obtain ⟨e, he, hkey⟩ := mem_map.mp hmem
      obtain ⟨resolved, -, rfl⟩ := mem_map.mp he
      -- a report is of no kind that a thread shows
      have hkind : (o.stateEvent identity resolved).kind = (o.reportEvent identity).kind := by
        rw [← mem_singleton.mp hb]
        exact congrArg EventKey.kind hkey
      cases resolved with
      | false => unfold reportEvent at hkind; split at hkind <;> cases hkind
      | true =>
        rw [stateEvent, if_pos rfl, closed_kind] at hkind
        unfold reportEvent at hkind
        split at hkind <;> split at hkind <;> cases hkind

variable (o) in
/-- What the threads of an identity come to. -/
def shown (identity : String) : Option Bool :=
  if o.priorLedger = none then (o.threadStates identity).getLast?
  else (distinctBy id (o.threadStates identity)).getLast?

theorem stateEvent_key_injective (identity : String) :
    (eventKey ∘ o.stateEvent identity).Injective := by
  intro a b h
  have hkind : (o.stateEvent identity a).kind = (o.stateEvent identity b).kind :=
    congrArg EventKey.kind h
  cases a <;> cases b <;> simp only [stateEvent, if_true, closed_kind, event_kind,
    Bool.false_eq_true, if_false] at hkind ⊢
  all_goals split at hkind <;> cases hkind

theorem observed_of_state (h : o.threadStates identity ≠ []) :
    o.observed identity = true := by
  obtain ⟨resolved, hmem⟩ := exists_mem_of_ne_nil _ h
  obtain ⟨observation, hob, -⟩ := mem_filterMap.mp hmem
  obtain ⟨hin, hid⟩ := mem_filter.mp hob
  simp only [observed, Bool.or_eq_true, any_eq_true]
  exact .inr ⟨observation, hin, hid⟩

/-- An identity that is not posted is decided by what its threads come to, or by being lost. -/
theorem getLast?_own_of_not_posted (h : identity ∉ o.postedIdentities) :
    ((o.own dateParse).filter (tellsStatus identity)).getLast? =
      ((o.shown identity).map (o.stateEvent identity)).or
        (o.unknownIfLost dateParse identity).getLast? := by
  have hfilter : (deriveCurrentEvents dateParse o).filter (tellsStatus identity) =
      (o.threadStates identity).map (o.stateEvent identity) ++ o.unknownIfLost dateParse identity := by
    rw [filter_current, reportIfPosted, if_neg h, append_nil]
  rw [filter_own, hfilter, shown]
  by_cases hstates : o.threadStates identity = []
  · rw [hstates]
    unfold unknownIfLost
    split <;> split <;> rfl
  · rw [unknownIfLost, lost_eq_false (observed_of_state hstates)]
    simp only [Bool.false_eq_true, if_false, append_nil]
    split
    · simp [List.getLast?_map]
    · rw [distinctBy_map_of_injective (stateEvent_key_injective identity), List.getLast?_map]
      simp

/-- Of two answers, the one that is first heard later is the last of the distinct ones. -/
theorem distinctBy_bool (b : Bool) (bs : List Bool) :
    distinctBy id (b :: bs) = if (!b) ∈ bs then [b, !b] else [b] := by
  have hfrom : ∀ bs : List Bool, distinctFrom id [b] bs = if (!b) ∈ bs then [!b] else [] := by
    intro bs
    induction bs with
    | nil => rfl
    | cons c cs ih =>
      by_cases hc : c = b
      · subst hc
        simp [distinctFrom, ih]
      · obtain rfl : c = !b := by cases b <;> cases c <;> simp_all
        have hrest : distinctFrom id [!b, b] cs = [] :=
          distinctFrom_eq_nil fun d _ => by cases d <;> cases b <;> simp
        simp [distinctFrom, hrest]
  change distinctFrom id [] (b :: bs) = _
  rw [distinctFrom, if_neg not_mem_nil]
  simp only [id_eq]
  rw [hfrom]
  split <;> rfl

theorem shown_eq_false_iff (h : false ∈ o.threadStates identity) :
    o.shown identity = some false ↔
      if o.priorLedger = none then (o.threadStates identity).getLast? = some false
      else true ∈ o.threadStates identity → (o.threadStates identity).head? = some true := by
  unfold shown
  split
  · exact Iff.rfl
  · cases hs : o.threadStates identity with
    | nil => simp [hs] at h
    | cons b bs =>
      rw [hs] at h
      rw [distinctBy_bool]
      cases b <;> by_cases hb : true ∈ bs <;> by_cases hb' : false ∈ bs <;> simp_all

theorem mem_threadStates :
    resolved ∈ o.threadStates identity ↔
      ∃ observation ∈ o.prior, observation.findingId = identity ∧
        observation.resolved = some resolved := by
  simp only [threadStates, mem_filterMap, mem_filter, decide_eq_true_eq]
  constructor
  · rintro ⟨observation, ⟨hin, hid⟩, hr⟩
    exact ⟨observation, hin, hid, hr⟩
  · rintro ⟨observation, hin, hid, hr⟩
    exact ⟨observation, ⟨hin, hid⟩, hr⟩

theorem mem_of_shown (h : o.shown identity = some resolved) :
    resolved ∈ o.threadStates identity := by
  unfold shown at h
  split at h
  · exact List.mem_of_getLast? h
  · exact distinctBy_sublist.subset (List.mem_of_getLast? h)

/-! ## Without the reactions -/

def notFeedback (e : OutcomeEvent) : Bool := e.kind ≠ .feedback

theorem filter_eq_self_of_kind {events : List OutcomeEvent} (h : ∀ e ∈ events, e.kind ≠ .feedback) :
    events.filter notFeedback = events :=
  filter_eq_self.mpr fun e he => by simpa [notFeedback] using h e he

theorem kind_of_mem_threadEvents : ∀ e ∈ o.threadEvents, e.kind ≠ .feedback := by
  intro e he
  obtain ⟨ob, -, hob⟩ := mem_filterMap.mp he
  obtain ⟨resolved, -, rfl⟩ := Option.map_eq_some_iff.mp hob
  split
  · rw [closed_kind]
    split <;> nofun
  · nofun

theorem kind_of_mem_reportEvents : ∀ e ∈ o.reportEvents, e.kind ≠ .feedback := by
  intro e he
  obtain ⟨identity, -, rfl⟩ := mem_map.mp he
  rw [event_kind]
  split <;> nofun

/-- The run without reactions has the same events, but for the feedback. -/
theorem current_withoutReactions (o : DeriveOutcomeOptions) :
    deriveCurrentEvents dateParse o.withoutReactions =
      (deriveCurrentEvents dateParse o).filter notFeedback := by
  have hthreads : o.withoutReactions.threadEvents = o.threadEvents := by
    unfold threadEvents withoutReactions
    rw [filterMap_map]
    rfl
  have hany : ∀ identity, (o.withoutReactions.prior.any fun ob => decide (ob.findingId = identity)) =
      o.prior.any fun ob => decide (ob.findingId = identity) := by
    intro identity
    unfold withoutReactions
    rw [any_map]
    rfl
  have hreports : o.withoutReactions.reportEvents = o.reportEvents := by
    unfold reportEvents
    simp only [hany]
    rfl
  have hfeedback : o.withoutReactions.feedbackEvents = [] := by
    have hnone : ∀ (prior : List PriorFindingObservation) (totals : Map String Reactions),
        (prior.map fun observation => { observation with reactions := ⟨0, 0⟩ }).foldl
          (fun totals o => if 0 < o.reactions.helpful || 0 < o.reactions.notHelpful then
            addReactions totals o.findingId o.reactions else totals) totals = totals := by
      intro prior
      induction prior with
      | nil => exact fun _ => rfl
      | cons ob prior ih => exact fun totals => ih totals
    unfold feedbackEvents currentReactions withoutReactions
    rw [hnone]
    rfl
  have hunknown : ∀ priorLedger, o.withoutReactions.unknownEvents dateParse priorLedger =
      o.unknownEvents dateParse priorLedger := by
    intro priorLedger
    unfold unknownEvents observed
    simp only [hany]
    rfl
  have hfeedbackKinds : o.feedbackEvents.filter notFeedback = [] :=
    filter_eq_nil_iff.mpr fun e he => by simp [notFeedback, (mem_feedbackEvents he).2]
  unfold deriveCurrentEvents
  rw [hthreads, hreports, hfeedback, filter_append, filter_append, filter_append,
    filter_eq_self_of_kind kind_of_mem_threadEvents, filter_eq_self_of_kind kind_of_mem_reportEvents,
    hfeedbackKinds]
  congr 1
  have hsame : o.withoutReactions.priorLedger = o.priorLedger := rfl
  rw [hsame]
  cases o.priorLedger with
  | none => rfl
  | some priorLedger =>
    simp only [hunknown]
    refine (filter_eq_self_of_kind fun e he => ?_).symm
    obtain ⟨x, -, rfl⟩ := mem_map.mp he
    simp

theorem own_withoutReactions (o : DeriveOutcomeOptions) :
    o.withoutReactions.own dateParse = (o.own dateParse).filter notFeedback := by
  have hsame : o.withoutReactions.priorLedger = o.priorLedger := rfl
  unfold own
  rw [current_withoutReactions, hsame]
  split
  · rfl
  · refine (filter_distinctBy fun d _ e _ h => ?_).symm
    have hkind : d.kind = e.kind := congrArg EventKey.kind h
    simp only [notFeedback, hkind]

theorem fits_withoutReactions (hp : o.Precedes dateParse) (hf : o.Fits dateParse) :
    o.withoutReactions.Fits dateParse := by
  intro priorLedger hprior
  have hfit := hf priorLedger hprior
  rw [mergedEvents_eq (o := o.withoutReactions) hp hprior, own_withoutReactions, length_append]
  rw [mergedEvents_eq hp hprior, length_append] at hfit
  have hold : o.withoutReactions.old = o.old := rfl
  have hshort := length_filter_le notFeedback (o.own dateParse)
  rw [hold]
  omega

/-- What feedback does not say is the same without the reactions. -/
theorem latest_withoutReactions {ν : Type} {value : OutcomeEvent → Option ν}
    (hvalue : ∀ e : OutcomeEvent, e.kind = .feedback → value e = none)
    (hp : o.Precedes dateParse) (hf : o.Fits dateParse) :
    latest (·.finding_id) value (chronological dateParse (deriveOutcomeEvents dateParse o)) =
      latest (·.finding_id) value
        (chronological dateParse (deriveOutcomeEvents dateParse o.withoutReactions)) := by
  have hold : o.withoutReactions.old = o.old := rfl
  have hskip : ∀ events : List OutcomeEvent, ∀ e ∈ events, notFeedback e = false → value e = none :=
    fun _ e _ he => hvalue e (by simpa [notFeedback] using he)
  rw [chronological_derive hp hf,
    chronological_derive (o := o.withoutReactions) hp (fits_withoutReactions hp hf),
    own_withoutReactions, hold]
  refine (latest_filter (hskip _)).symm.trans (Eq.trans ?_ (latest_filter (hskip _)))
  rw [filter_append, filter_append, filter_filter]
  simp only [Bool.and_self]

/-! ## Where the outcomes are honest -/

theorem headAdvanced_iff : o.headAdvanced = true ↔ ∃ head, o.priorHeadSha = some head ∧
    trim head ≠ "" ∧ trim o.currentHeadSha ≠ "" ∧ head ≠ o.currentHeadSha := by
  unfold headAdvanced sameHead
  cases o.priorHeadSha with
  | none => simp
  | some head =>
    simp only [Option.any_some, Bool.and_eq_true, decide_eq_true_eq, Bool.not_eq_true',
      Bool.and_eq_false_iff, decide_eq_false_iff_not, Option.some.injEq, exists_eq_left']
    tauto

theorem statuses_get?_of_posted (hp : o.Precedes dateParse) (hf : o.Fits dateParse)
    {identity : String} (h : identity ∈ o.postedIdentities) :
    (statuses dateParse (deriveOutcomeEvents dateParse o)).get? identity = some .open := by
  rw [statuses_get?, deciding_derive hp hf, getLast?_own_of_posted h]
  unfold reportEvent
  split <;> rfl

theorem deciding_of_shown (hp : o.Precedes dateParse) (hf : o.Fits dateParse) {identity : String}
    (h : identity ∉ o.postedIdentities) {resolved : Bool} (hs : o.shown identity = some resolved) :
    deciding dateParse (deriveOutcomeEvents dateParse o) identity =
      some (o.stateEvent identity resolved) := by
  rw [deciding_derive hp hf, getLast?_own_of_not_posted h, hs]
  rfl

theorem exists_shown (h : o.threadStates identity ≠ []) :
    ∃ resolved, o.shown identity = some resolved := by
  unfold shown
  split
  · exact ⟨_, List.getLast?_eq_some_getLast h⟩
  · cases hs : o.threadStates identity with
    | nil => exact absurd hs h
    | cons b bs =>
      rw [distinctBy_bool]
      split
      · exact ⟨!b, rfl⟩
      · exact ⟨b, rfl⟩

theorem statuses_open_iff_shown (hp : o.Precedes dateParse) (hf : o.Fits dateParse)
    {identity : String} (h : identity ∉ o.postedIdentities)
    (hopen : false ∈ o.threadStates identity) :
    (statuses dateParse (deriveOutcomeEvents dateParse o)).get? identity = some .open ↔
      o.shown identity = some false := by
  obtain ⟨resolved, hs⟩ := exists_shown (ne_nil_of_mem hopen)
  rw [statuses_get?, deciding_of_shown hp hf h hs, hs]
  cases resolved with
  | false => exact iff_of_true rfl rfl
  | true =>
    simp only [Option.bind_some, stateEvent, if_true, closed_kind]
    refine iff_of_false ?_ (by simp)
    split <;> simp [statusOfKind]

theorem deciding_own (hp : o.Precedes dateParse)
    (hf : o.Fits dateParse) (he : e ∈ deriveCurrentEvents dateParse o)
    (hd : deciding dateParse (deriveOutcomeEvents dateParse o) identity = some e) :
    ((o.own dateParse).filter (tellsStatus identity)).getLast? = some e := by
  rw [deciding_derive hp hf] at hd
  cases hown : ((o.own dateParse).filter (tellsStatus identity)).getLast? with
  | some d => rwa [hown] at hd
  | none =>
    rw [hown, Option.none_or] at hd
    -- the events found in the ledger are older than the run
    have hold := mem_filter.mp (List.mem_of_getLast? hd)
    have hlt := old_precedes hp (mem_chronological.mp hold.1)
    rw [at'_of_mem_current he] at hlt
    exact absurd hlt (lt_irrefl _)

theorem unknownIfLost_eq_some
    (h : (o.unknownIfLost dateParse identity).getLast? = some e) :
    o.lost dateParse identity = true ∧ e = o.event identity .unknown .priorLedger := by
  unfold unknownIfLost at h
  split at h
  · next hlost => exact ⟨hlost, (Option.some.inj h).symm⟩
  · cases h

theorem statusOfKind_of_isOpenKind {kind : OutcomeEventKind} (h : isOpenKind kind = true) :
    statusOfKind kind = some .open := by
  cases kind <;> first | rfl | cases h

end DeriveOutcomeOptions

open DeriveOutcomeOptions

variable {o : DeriveOutcomeOptions}

theorem honest_resolved (hp : o.Precedes dateParse) (hf : o.Fits dateParse) (hsettled : Settled o)
    {identity : String} {e : OutcomeEvent} (he : e ∈ deriveCurrentEvents dateParse o)
    (hd : deciding dateParse (deriveOutcomeEvents dateParse o) identity = some e)
    (hk : e.kind = .resolved) :
    true ∈ o.threadStates identity ∧ false ∉ o.threadStates identity ∧
      identity ∉ o.postedIdentities ∧ o.headAdvanced = true := by
  have hown := deciding_own hp hf he hd
  have hposted : identity ∉ o.postedIdentities := by
    intro h
    rw [getLast?_own_of_posted h] at hown
    cases hown
    unfold reportEvent at hk
    split at hk <;> cases hk
  rw [getLast?_own_of_not_posted hposted] at hown
  cases hs : o.shown identity with
  | none =>
    rw [hs, Option.map_none, Option.none_or] at hown
    rw [(unknownIfLost_eq_some hown).2] at hk
    cases hk
  | some resolved =>
    rw [hs, Option.map_some, Option.some_or] at hown
    cases hown
    cases resolved with
    | false => cases hk
    | true =>
      rw [stateEvent, if_pos rfl, closed_kind] at hk
      have hadvanced : o.headAdvanced = true := by
        by_contra hno
        rw [if_neg hno] at hk
        cases hk
      refine ⟨mem_of_shown hs, fun hopen => ?_, hposted, hadvanced⟩
      have hfalse := (shown_eq_false_iff hopen).mpr (hsettled identity hposted hopen)
      rw [hs] at hfalse
      cases hfalse

theorem honest_unknown (hp : o.Precedes dateParse) (hf : o.Fits dateParse)
    {identity : String} {e : OutcomeEvent} (he : e ∈ deriveCurrentEvents dateParse o)
    (hd : deciding dateParse (deriveOutcomeEvents dateParse o) identity = some e)
    (hk : e.kind = .unknown) : o.lost dateParse identity = true := by
  have hown := deciding_own hp hf he hd
  have hposted : identity ∉ o.postedIdentities := by
    intro h
    rw [getLast?_own_of_posted h] at hown
    cases hown
    unfold reportEvent at hk
    split at hk <;> cases hk
  rw [getLast?_own_of_not_posted hposted] at hown
  cases hs : o.shown identity with
  | none =>
    rw [hs, Option.map_none, Option.none_or] at hown
    exact (unknownIfLost_eq_some hown).1
  | some resolved =>
    rw [hs, Option.map_some, Option.some_or] at hown
    cases hown
    cases resolved with
    | false => cases hk
    | true =>
      rw [stateEvent, if_pos rfl, closed_kind] at hk
      split at hk <;> cases hk

theorem lost_spec {identity : String} (h : o.lost dateParse identity = true) :
    (∃ priorLedger, o.priorLedger = some priorLedger ∧
      (statuses dateParse priorLedger).get? identity = some .open) ∧
    identity ∉ o.postedIdentities ∧ ∀ observation ∈ o.prior, observation.findingId ≠ identity := by
  simp only [lost, Bool.and_eq_true, Bool.not_eq_true', Option.any_eq_true, Option.bind_eq_some_iff]
    at h
  obtain ⟨hobserved, kind, ⟨priorLedger, hprior, hget⟩, hopen⟩ := h
  simp only [observed, Bool.or_eq_false_iff, any_eq_false, decide_eq_true_eq] at hobserved
  refine ⟨⟨priorLedger, hprior, ?_⟩, by simpa using hobserved.1, hobserved.2⟩
  rw [lastStatus_get?] at hget
  obtain ⟨e, he, rfl⟩ := Option.map_eq_some_iff.mp hget
  rw [statuses_get?, he]
  exact statusOfKind_of_isOpenKind hopen

/-- With a prior ledger that is older and does not overflow, the outcomes are honest exactly where the
threads of every identity that is not posted are settled. -/
theorem honest_iff_settled (o : DeriveOutcomeOptions) (hp : o.Precedes dateParse)
    (hf : o.Fits dateParse) : Honest dateParse o ↔ Settled o := by
  constructor
  · intro h identity hposted hopen
    obtain ⟨observation, hin, hid, hr⟩ := mem_threadStates.mp hopen
    have hstatus := h.openThread observation hin hr
    rw [hid] at hstatus
    exact (shown_eq_false_iff hopen).mp ((statuses_open_iff_shown hp hf hposted hopen).mp hstatus)
  · intro hsettled
    refine ⟨fun identity h => statuses_get?_of_posted hp hf h, fun observation hin hr => ?_,
      fun identity e he hd hk => ?_, fun identity e he hd hk => ?_, ?_, ?_⟩
    · by_cases hposted : observation.findingId ∈ o.postedIdentities
      · exact statuses_get?_of_posted hp hf hposted
      · have hopen : false ∈ o.threadStates observation.findingId :=
          mem_threadStates.mpr ⟨observation, hin, rfl, hr⟩
        have hshown := (shown_eq_false_iff hopen).mpr (hsettled _ hposted hopen)
        exact (statuses_open_iff_shown hp hf hposted hopen).mpr hshown
    · obtain ⟨htrue, hfalse, hposted, hhead⟩ := honest_resolved hp hf hsettled he hd hk
      exact ⟨mem_threadStates.mp htrue, fun h => hfalse (mem_threadStates.mpr h), hposted,
        headAdvanced_iff.mp hhead⟩
    · exact lost_spec (honest_unknown hp hf he hd hk)
    · exact latest_withoutReactions (fun e he => by rw [he]; rfl) hp hf
    · exact latest_withoutReactions (fun e he => by rw [labelOf, he]; rfl) hp hf

/-! ## Two comments of one finding -/

namespace TwoComments

def identity : String := "aaaaaaaaaaaaaaaaaaaaaaaaaaaaaaaaaaaaaaaaaaaaaaaaaaaaaaaaaaaaaaaa"

/-- `Date.parse` of the two instants. -/
def instants (text : String) : Option Int :=
  if text = "2026-01-01T00:00:00Z" then some 1767225600000
  else if text = "2026-01-02T00:00:00Z" then some 1767312000000
  else none

def comment (resolved : Bool) : PriorFindingObservation :=
  ⟨identity, some resolved, ⟨0, 0⟩⟩

/-- The thread of the newest comment is open, that of the older one was resolved. -/
def run : DeriveOutcomeOptions where
  postedIdentities := []
  prior := [comment false, comment true]
  priorHeadSha := some "aaa"
  currentHeadSha := "bbb"
  route := none
  model := none
  at' := "2026-01-02T00:00:00Z"
  priorLedger := none

/-- The finding as it was reported the day before. -/
def reported : OutcomeEvent where
  finding_id := identity
  kind := .reported
  at' := some "2026-01-01T00:00:00Z"
  head_sha := some "aaa"
  route := none
  model := none
  provenance := .currentReview

end TwoComments

open TwoComments in
theorem honest_iff_settled_after_report :
    Honest instants { run with priorLedger := some [reported] } ↔
      Settled { run with priorLedger := some [reported] } := by
  refine honest_iff_settled _ (fun priorLedger h e he => ?_) fun priorLedger h => ?_
  · cases h
    rw [mem_singleton.mp he]
    decide
  · cases h
    decide

open TwoComments in
/-- The finding counts as resolved, although a thread of it is open. -/
theorem open_counts_as_resolved : ¬ ∀ (dateParse : String → Option Int) (o : DeriveOutcomeOptions),
    o.Precedes dateParse → Honest dateParse o := by
  intro hall
  have hopen := (hall instants run nofun).openThread (comment false) (by decide) rfl
  have hresolved : (statuses instants (deriveOutcomeEvents instants run)).get? identity =
      some .resolved := by decide
  exact absurd (hopen.symm.trans hresolved) (by decide)

end PrReviewer.Outcomes
