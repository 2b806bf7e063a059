import PrReviewer.Outcomes.Honest

/-!
# Reactions over the runs of a finding

Each run derives its ledger from that of the run before (`ledgerAfter`). A run adds what a signal grew
beyond the ledger's sum (`filter_feedback`), so the sum is the largest total that was observed
(`Accounts`), whatever came and went in between. The same run once more adds nothing
(`rerun_eq`): what it would say stands in the ledger already, and the ledger is only cleared of exact
duplicates, which only a first run without a prior ledger can leave.
-/

namespace PrReviewer.Outcomes

open Js List

variable {dateParse : String → Option Int}

/-! ## Totals -/

def Reactions.of (r : Reactions) : FeedbackSignal → Nat
  | .helpful => r.helpful
  | .not_helpful => r.notHelpful

/-- What a table of reactions has for a signal of an identity. -/
def tally (totals : Map String Reactions) (identity : String) (signal : FeedbackSignal) : Nat :=
  ((totals.get? identity).getD ⟨0, 0⟩).of signal

/-- The reactions that a run observed, over all comments of the identity. -/
def observedTotal (o : DeriveOutcomeOptions) (identity : String) (signal : FeedbackSignal) : Nat :=
  ((o.prior.filter (·.findingId = identity)).map (·.reactions.of signal)).sum

/-- A feedback event of that signal of the identity. -/
def countsFor (identity : String) (signal : FeedbackSignal) (e : OutcomeEvent) : Bool :=
  e.kind = .feedback && e.finding_id = identity && e.signal = some signal

/-- The sum of the feedback counts in a ledger. -/
def feedbackTotal (events : List OutcomeEvent) (identity : String) (signal : FeedbackSignal) : Nat :=
  ((events.filter (countsFor identity signal)).map (·.count.getD 0)).sum

theorem tally_addReactions (totals : Map String Reactions) (x identity : String) (r : Reactions)
    (signal : FeedbackSignal) : tally (addReactions totals x r) identity signal =
      tally totals identity signal + if identity = x then r.of signal else 0 := by
  unfold tally addReactions
  rw [Map.get?_set]
  by_cases h : identity = x
  · subst h
    rw [if_pos rfl, if_pos rfl]
    cases signal <;> rfl
  · rw [if_neg h, if_neg h, Nat.add_zero]

theorem tally_currentReactions (o : DeriveOutcomeOptions) (identity : String)
    (signal : FeedbackSignal) :
    tally (currentReactions o.prior) identity signal = observedTotal o identity signal := by
  have hfold : ∀ (prior : List PriorFindingObservation) (totals : Map String Reactions),
      tally (prior.foldl (fun totals o => if 0 < o.reactions.helpful || 0 < o.reactions.notHelpful then
          addReactions totals o.findingId o.reactions else totals) totals) identity signal =
        tally totals identity signal +
          ((prior.filter (·.findingId = identity)).map (·.reactions.of signal)).sum := by
    intro prior
    induction prior with
    | nil => exact fun _ => rfl
    | cons ob prior ih =>
      intro totals
      rw [foldl_cons, ih]
      have hone : tally (if 0 < ob.reactions.helpful || 0 < ob.reactions.notHelpful then
          addReactions totals ob.findingId ob.reactions else totals) identity signal =
          tally totals identity signal +
            if identity = ob.findingId then ob.reactions.of signal else 0 := by
        split
        · exact tally_addReactions ..
        · next hno =>
          have hzero : ob.reactions.of signal = 0 := by
            simp only [Bool.or_eq_true, decide_eq_true_eq, not_or, Nat.not_lt, Nat.le_zero] at hno
            cases signal
            · exact hno.1
            · exact hno.2
          simp [hzero]
      rw [hone]
      by_cases h : ob.findingId = identity
      · simp [h, Nat.add_assoc]
      · simp [h, Ne.symm h]
  have := hfold o.prior .empty
  rwa [show tally .empty identity signal = 0 by cases signal <;> rfl, Nat.zero_add] at this

theorem tally_priorFeedbackTotals (ledger : List OutcomeEvent) (identity : String)
    (signal : FeedbackSignal) :
    tally (priorFeedbackTotals ledger) identity signal = feedbackTotal ledger identity signal := by
  induction ledger using List.reverseRecOn with
  | nil => cases signal <;> rfl
  | append_singleton events e ih =>
    rw [priorFeedbackTotals, feedbackTotal] at ih ⊢
    rw [foldl_append, foldl_cons, foldl_nil, filter_append, map_append, sum_append, ← ih]
    generalize List.foldl _ _ events = totals
    by_cases hk : e.kind = .feedback
    · cases hs : e.signal with
      | none => simp [countsFor, hk, hs]
      | some s =>
        rw [hk]
        simp only [tally_addReactions]
        by_cases hid : e.finding_id = identity
        · cases s <;> cases signal <;> simp [countsFor, hk, hs, hid, signalReactions, Reactions.of]
        · simp [countsFor, hid, Ne.symm hid]
    · have hskip : countsFor identity signal e = false := by simp [countsFor, hk]
      cases hkind : e.kind <;> first | exact absurd hkind hk | simp [hskip]

/-! ## What a run adds -/

/-- The ledger that a run finds, if any. -/
def DeriveOutcomeOptions.found (o : DeriveOutcomeOptions) : List OutcomeEvent := o.priorLedger.getD []

theorem countsFor_feedbackEvent (o : DeriveOutcomeOptions) (x identity : String)
    (s signal : FeedbackSignal) (current prior : Nat) :
    (o.feedbackEvent x s current prior).filter (countsFor identity signal) =
      if x = identity ∧ s = signal then o.feedbackEvent x s current prior else [] := by
  unfold DeriveOutcomeOptions.feedbackEvent
  split
  · simp
  · by_cases hx : x = identity <;> by_cases hs : s = signal <;>
      simp [countsFor, DeriveOutcomeOptions.event, hx, hs]

theorem priorTotal_eq (o : DeriveOutcomeOptions) (identity : String) (signal : FeedbackSignal) :
    (((o.priorLedger.map priorFeedbackTotals).bind (·.get? identity)).getD ⟨0, 0⟩).of signal =
      feedbackTotal o.found identity signal := by
  unfold DeriveOutcomeOptions.found
  cases o.priorLedger with
  | none => cases signal <;> rfl
  | some ledger => exact tally_priorFeedbackTotals ledger identity signal

/-- Of a signal of an identity, a run adds what it grew. -/
theorem filter_feedback (o : DeriveOutcomeOptions) (identity : String) (signal : FeedbackSignal) :
    o.feedbackEvents.filter (countsFor identity signal) =
      o.feedbackEvent identity signal (observedTotal o identity signal)
        (feedbackTotal o.found identity signal) := by
  have hentry : ∀ (x : String) (current prior : Reactions),
      (o.feedbackEvent x .helpful current.helpful prior.helpful
        ++ o.feedbackEvent x .not_helpful current.notHelpful prior.notHelpful).filter
          (countsFor identity signal) =
        if x = identity then o.feedbackEvent identity signal (current.of signal) (prior.of signal)
        else [] := by
    intro x current prior
    rw [filter_append, countsFor_feedbackEvent, countsFor_feedbackEvent]
    by_cases hx : x = identity
    · subst hx
      cases signal <;> simp [Reactions.of]
    · simp [hx]
  have hentries : ∀ es : List (String × Reactions), (es.map Prod.fst).Nodup →
      (es.flatMap fun entry =>
        let prior := ((o.priorLedger.map priorFeedbackTotals).bind (·.get? entry.1)).getD ⟨0, 0⟩
        o.feedbackEvent entry.1 .helpful entry.2.helpful prior.helpful
          ++ o.feedbackEvent entry.1 .not_helpful entry.2.notHelpful prior.notHelpful).filter
            (countsFor identity signal) =
        o.feedbackEvent identity signal (((es.lookup identity).getD ⟨0, 0⟩).of signal)
          (feedbackTotal o.found identity signal) := by
    intro es hn
    have hnothing : ∀ prior, o.feedbackEvent identity signal
        (Reactions.of ⟨0, 0⟩ signal) prior = [] := by
      intro prior
      rw [DeriveOutcomeOptions.feedbackEvent, if_pos]
      cases signal <;> exact Nat.zero_le _
    induction es with
    | nil => exact (hnothing _).symm
    | cons entry es ih =>
      obtain ⟨x, current⟩ := entry
      rw [map_cons, nodup_cons] at hn
      rw [flatMap_cons, filter_append, ih hn.2, hentry, Map.lookup_cons_ite]
      by_cases hx : x = identity
      · subst hx
        have hmissing : es.lookup x = none := by
          refine List.lookup_eq_none_iff.mpr fun p hp => ?_
          have hne : x ≠ p.1 := by
            rintro rfl
            exact hn.1 (mem_map.mpr ⟨p, hp, rfl⟩)
          simpa using hne
        simp only [if_true, hmissing, Option.getD_none, Option.getD_some, hnothing, append_nil]
        rw [priorTotal_eq]
      · rw [if_neg hx, if_neg (Ne.symm hx), nil_append]
  have := hentries (currentReactions o.prior).entries (currentReactions o.prior).nodup
  rw [DeriveOutcomeOptions.feedbackEvents, this]
  congr 1
  exact tally_currentReactions o identity signal

theorem length_feedbackEvent (o : DeriveOutcomeOptions) (identity : String) (signal : FeedbackSignal)
    (current prior : Nat) : (o.feedbackEvent identity signal current prior).length ≤ 1 := by
  unfold DeriveOutcomeOptions.feedbackEvent
  split <;> simp

theorem sum_feedbackEvent (o : DeriveOutcomeOptions) (identity : String) (signal : FeedbackSignal)
    (current prior : Nat) :
    ((o.feedbackEvent identity signal current prior).map (·.count.getD 0)).sum = current - prior := by
  unfold DeriveOutcomeOptions.feedbackEvent
  split
  · next h => simp [Nat.sub_eq_zero_of_le h]
  · simp

theorem nodup_of_length {α : Type} {xs : List α} (h : xs.length ≤ 1) : xs.Nodup := by
  cases xs with
  | nil => exact nodup_nil
  | cons x xs =>
    obtain rfl : xs = [] := by simpa using h
    exact nodup_singleton x

theorem distinctBy_of_length {events : List OutcomeEvent} (h : events.length ≤ 1) :
    distinctBy eventKey events = events := by
  apply distinctBy_of_nodup
  have hshort : (events.map eventKey).length ≤ 1 := by rwa [length_map]
  exact nodup_of_length hshort

theorem countsFor_eq_of_key {identity : String} {signal : FeedbackSignal} {d e : OutcomeEvent}
    (h : eventKey d = eventKey e) : countsFor identity signal d = countsFor identity signal e := by
  have hid : d.finding_id = e.finding_id := congrArg EventKey.finding_id h
  have hkind : d.kind = e.kind := congrArg EventKey.kind h
  have hsignal : d.signal = e.signal := congrArg EventKey.signal h
  simp only [countsFor, hid, hkind, hsignal]

/-- The feedback among the events of a run. -/
theorem filter_current_feedback (o : DeriveOutcomeOptions) (identity : String)
    (signal : FeedbackSignal) :
    (deriveCurrentEvents dateParse o).filter (countsFor identity signal) =
      o.feedbackEvent identity signal (observedTotal o identity signal)
        (feedbackTotal o.found identity signal) := by
  have hnone : ∀ events : List OutcomeEvent, (∀ e ∈ events, e.kind ≠ .feedback) →
      events.filter (countsFor identity signal) = [] := by
    intro events h
    exact filter_eq_nil_iff.mpr fun e he => by simp [countsFor, h e he]
  unfold deriveCurrentEvents
  rw [filter_append, filter_append, filter_append, filter_feedback,
    hnone _ DeriveOutcomeOptions.kind_of_mem_threadEvents,
    hnone _ DeriveOutcomeOptions.kind_of_mem_reportEvents, nil_append, nil_append]
  cases o.priorLedger with
  | none => exact append_nil _
  | some priorLedger =>
    have hkind : ∀ e ∈ o.unknownEvents dateParse priorLedger, e.kind ≠ .feedback := by
      intro e he
      obtain ⟨x, -, rfl⟩ := mem_map.mp he
      nofun
    simp only [hnone _ hkind, append_nil]

theorem filter_own_feedback (o : DeriveOutcomeOptions) (identity : String) (signal : FeedbackSignal) :
    (o.own dateParse).filter (countsFor identity signal) =
      o.feedbackEvent identity signal (observedTotal o identity signal)
        (feedbackTotal o.found identity signal) := by
  unfold DeriveOutcomeOptions.own
  split
  · exact filter_current_feedback o identity signal
  · rw [filter_distinctBy fun d _ e _ h => countsFor_eq_of_key h, filter_current_feedback]
    exact distinctBy_of_length (length_feedbackEvent ..)

/-! ## What a ledger accounts for -/

/-- The largest total that was observed. -/
def largestTotal (runs : List DeriveOutcomeOptions) (identity : String) (signal : FeedbackSignal) :
    Nat :=
  (runs.map (observedTotal · identity signal)).foldl max 0

theorem largestTotal_append_singleton (runs : List DeriveOutcomeOptions) (o : DeriveOutcomeOptions)
    (identity : String) (signal : FeedbackSignal) : largestTotal (runs ++ [o]) identity signal =
      max (largestTotal runs identity signal) (observedTotal o identity signal) := by
  simp [largestTotal, foldl_append]

/-- The ledger after these runs: its events are of their instants, and its feedback adds up. -/
structure Accounts (runs : List DeriveOutcomeOptions) (ledger : List OutcomeEvent) : Prop where
  instants : ∀ e ∈ ledger, ∃ o ∈ runs, e.at' = some o.at'
  total : ∀ identity signal, feedbackTotal ledger identity signal = largestTotal runs identity signal
  once : ∀ identity signal, ((ledger.filter (countsFor identity signal)).map eventKey).Nodup

theorem accounts_nil : Accounts [] [] where
  instants := by simp
  total _ _ := rfl
  once _ _ := by simp

theorem old_eq (o : DeriveOutcomeOptions) : o.old = distinctBy eventKey o.found := by
  unfold DeriveOutcomeOptions.old DeriveOutcomeOptions.found
  cases o.priorLedger <;> rfl

variable {runs : List DeriveOutcomeOptions} {o : DeriveOutcomeOptions} {ledger : List OutcomeEvent}
  {found : Option (List OutcomeEvent)}

/-- One more run. -/
theorem Accounts.derive
    (h : Accounts runs o.found) (hp : o.Precedes dateParse) (hf : o.Fits dateParse) :
    Accounts (runs ++ [o]) (deriveOutcomeEvents dateParse o) := by
  rw [DeriveOutcomeOptions.derive_eq hp hf]
  have hold : ∀ identity signal, o.old.filter (countsFor identity signal) =
      o.found.filter (countsFor identity signal) := by
    intro identity signal
    rw [old_eq, filter_distinctBy fun d _ e _ h => countsFor_eq_of_key h]
    exact distinctBy_of_nodup (h.once identity signal)
  refine ⟨fun e he => ?_, fun identity signal => ?_, fun identity signal => ?_⟩
  · rcases mem_append.mp he with he | he
    · rw [old_eq] at he
      obtain ⟨o', ho', hat⟩ := h.instants e (distinctBy_sublist.subset he)
      exact ⟨o', by simp [ho'], hat⟩
    · exact ⟨o, by simp, DeriveOutcomeOptions.at'_of_mem_current (DeriveOutcomeOptions.own_subset he)⟩
  · have htotal := h.total identity signal
    have hsum : feedbackTotal (o.old ++ o.own dateParse) identity signal =
        feedbackTotal o.found identity signal + (observedTotal o identity signal -
          feedbackTotal o.found identity signal) := by
      rw [feedbackTotal, filter_append, hold, filter_own_feedback, map_append,
        sum_append, sum_feedbackEvent]
      rfl
    rw [hsum, largestTotal_append_singleton, htotal]
    omega
  · rw [filter_append, hold, filter_own_feedback, map_append]
    refine (h.once identity signal).append ?_ ?_
    · refine nodup_of_length ?_
      rw [length_map]
      exact length_feedbackEvent ..
    · -- the run's own feedback is of a later instant
      intro key hfound hown
      obtain ⟨e, he, rfl⟩ := mem_map.mp hfound
      obtain ⟨d, hd, hkey⟩ := mem_map.mp hown
      rw [← hold] at he
      rw [← @filter_own_feedback dateParse] at hd
      have hlt := DeriveOutcomeOptions.old_precedes hp (mem_filter.mp he).1
      have hat := DeriveOutcomeOptions.at'_of_mem_current
        (DeriveOutcomeOptions.own_subset (mem_filter.mp hd).1)
      rw [← hat] at hlt
      exact DeriveOutcomeOptions.eventKey_ne dateParse hlt hkey

/-! ## The same run once more -/

open DeriveOutcomeOptions

theorem eq_nil_of_filter {α : Type} {xs : List α} (h : ∀ x ∈ xs, ∃ p : α → Bool, p x = true ∧ xs.filter p = []) :
    xs = [] := by
  cases xs with
  | nil => rfl
  | cons x xs =>
    obtain ⟨p, hx, hnil⟩ := h x mem_cons_self
    exact absurd hx (filter_eq_nil_iff.mp hnil x mem_cons_self)

/-- Reactions that the ledger has counted are not counted again. -/
theorem feedbackEvents_eq_nil
    (h : ∀ identity signal, observedTotal o identity signal ≤ feedbackTotal o.found identity signal) :
    o.feedbackEvents = [] := by
  refine eq_nil_of_filter fun e he => ?_
  obtain ⟨⟨x, current⟩, -, hmem⟩ := mem_flatMap.mp he
  have hsignal : ∃ signal, e.signal = some signal := by
    rcases mem_append.mp hmem with hmem | hmem
    all_goals
      unfold feedbackEvent at hmem
      split at hmem
      · cases hmem
      · rw [mem_singleton.mp hmem]
        exact ⟨_, rfl⟩
  obtain ⟨signal, hs⟩ := hsignal
  refine ⟨countsFor e.finding_id signal, by simp [countsFor, hs, (mem_feedbackEvents he).2], ?_⟩
  rw [filter_feedback, feedbackEvent, if_pos (h _ _)]

/-- What a run has not met is not live in its ledger. -/
theorem not_lost_after (hp : o.Precedes dateParse)
    (hf : o.Fits dateParse) (hfound : (o.found.map eventKey).Nodup) (identity : String) :
    lost dateParse { o with priorLedger := some (deriveOutcomeEvents dateParse o) } identity = false := by
  cases hobserved : o.observed identity with
  | true => exact lost_eq_false hobserved
  | false =>
    have hposted : identity ∉ o.postedIdentities := by
      intro h
      simp [observed, h] at hobserved
    have hshown : o.shown identity = none := by
      cases hs : o.shown identity with
      | none => rfl
      | some resolved =>
        rw [observed_of_state (ne_nil_of_mem (mem_of_shown hs))] at hobserved
        cases hobserved
    have hdeciding := deciding_derive hp hf identity
    rw [getLast?_own_of_not_posted hposted, hshown, Option.map_none, Option.none_or] at hdeciding
    have hlast := @lastStatus_get? dateParse (deriveOutcomeEvents dateParse o) identity
    rw [hdeciding] at hlast
    have hstill : observed { o with priorLedger := some (deriveOutcomeEvents dateParse o) } identity =
        false := hobserved
    simp only [lost, hstill, Bool.not_false, Bool.true_and, Option.bind_some, hlast]
    cases hlost : o.lost dateParse identity with
    | true => simp [unknownIfLost, hlost, isOpenKind]
    | false =>
      rw [unknownIfLost, hlost, old_eq, distinctBy_of_nodup hfound]
      simp only [Bool.false_eq_true, if_false, List.getLast?_nil, Option.none_or]
      -- it was not live in the ledger before either
      simp only [lost, hobserved, Bool.not_false, Bool.true_and] at hlost
      unfold found
      cases hprior : o.priorLedger with
      | none => rfl
      | some ledger =>
        rw [hprior, Option.bind_some, lastStatus_get?] at hlost
        exact hlost

theorem unknownEvents_eq_nil
    (hprior : o.priorLedger = some ledger) (h : ∀ identity, o.lost dateParse identity = false) :
    o.unknownEvents dateParse ledger = [] := by
  refine eq_nil_of_filter fun e he => ⟨tellsStatus e.finding_id, ?_, ?_⟩
  · obtain ⟨x, -, rfl⟩ := mem_map.mp he
    simp [tellsStatus, isStatusKind, statusOfKind]
  · rw [filter_unknownEvents hprior, unknownIfLost, h]
    rfl

theorem mem_keys_derive (hp : o.Precedes dateParse)
    (hf : o.Fits dateParse) {e : OutcomeEvent} (he : e ∈ deriveCurrentEvents dateParse o) :
    eventKey e ∈ (deriveOutcomeEvents dateParse o).map eventKey := by
  rw [derive_eq hp hf, map_append, mem_append]
  right
  unfold own
  split
  · exact mem_map_of_mem he
  · exact mem_keys_distinctBy.mpr (mem_map_of_mem he)

/-- The same run on its own ledger leaves it as it is. -/
theorem rerun_eq
    (h : Accounts runs o.found) (hp : o.Precedes dateParse) (hf : o.Fits dateParse)
    (hfound : (o.found.map eventKey).Nodup)
    (hledger : ((deriveOutcomeEvents dateParse o).map eventKey).Nodup)
    (hlength : (deriveOutcomeEvents dateParse o).length ≤ MAX_LEDGER_EVENTS) :
    deriveOutcomeEvents dateParse { o with priorLedger := some (deriveOutcomeEvents dateParse o) } =
      deriveOutcomeEvents dateParse o := by
  let again := { o with priorLedger := some (deriveOutcomeEvents dateParse o) }
  have hfeedback : again.feedbackEvents = [] := by
    refine feedbackEvents_eq_nil fun identity signal => ?_
    have htotal := (h.derive hp hf).total identity signal
    rw [largestTotal_append_singleton] at htotal
    exact (le_max_right _ _).trans htotal.symm.le
  have hunknown : again.unknownEvents dateParse (deriveOutcomeEvents dateParse o) = [] :=
    unknownEvents_eq_nil rfl (not_lost_after hp hf hfound)
  have hcurrent : deriveCurrentEvents dateParse again = o.threadEvents ++ o.reportEvents := by
    unfold deriveCurrentEvents
    rw [hfeedback]
    simp only [again, hunknown, append_nil]
    rfl
  have hseen : ∀ e ∈ o.threadEvents ++ o.reportEvents,
      eventKey e ∈ (deriveOutcomeEvents dateParse o).map eventKey ++ [] := by
    intro e he
    rw [append_nil]
    refine mem_keys_derive hp hf ?_
    unfold deriveCurrentEvents
    exact mem_append_left _ (mem_append_left _ he)
  have hmerged : mergedEvents (deriveOutcomeEvents dateParse o) (deriveCurrentEvents dateParse again) =
      deriveOutcomeEvents dateParse o := by
    rw [hcurrent, mergedEvents, distinctBy, distinctFrom_append, distinctFrom_eq_nil hseen,
      append_nil]
    exact distinctBy_of_nodup hledger
  change mergeLedger dateParse _ (deriveCurrentEvents dateParse again) = _
  rw [mergeLedger, hmerged]
  exact if_pos hlength

/-! ## Every run -/

/-- The run with what it finds. -/
def DeriveOutcomeOptions.onto (o : DeriveOutcomeOptions) (found : Option (List OutcomeEvent)) :
    DeriveOutcomeOptions :=
  { o with priorLedger := found }

variable (dateParse)

/-- The ledger after the runs, each deriving it from that of the run before. -/
def ledgerAfter (start : Option (List OutcomeEvent)) (runs : List DeriveOutcomeOptions) :
    Option (List OutcomeEvent) :=
  runs.foldl (fun ledger o => some (deriveOutcomeEvents dateParse (o.onto ledger))) start

/-- The instants of the runs increase strictly. -/
def Increasing (runs : List DeriveOutcomeOptions) : Prop :=
  runs.Pairwise fun a b =>
    outcomeEventInstant dateParse (some a.at') < outcomeEventInstant dateParse (some b.at')

/-- No ledger on the way is full. -/
def BelowCap (start : Option (List OutcomeEvent)) (runs : List DeriveOutcomeOptions) : Prop :=
  ∀ earlier o, earlier ++ [o] <+: runs →
    (deriveOutcomeEvents dateParse (o.onto (ledgerAfter dateParse start earlier))).length <
      MAX_LEDGER_EVENTS

/-- A first run without any prior ledger leaves no exact duplicates. -/
def FirstDistinct (start : Option (List OutcomeEvent)) (runs : List DeriveOutcomeOptions) : Prop :=
  start = none → ∀ first ∈ runs.head?,
    ((deriveOutcomeEvents dateParse (first.onto none)).map eventKey).Nodup

variable {dateParse}

theorem ledgerAfter_append_singleton (start : Option (List OutcomeEvent))
    (runs : List DeriveOutcomeOptions) (o : DeriveOutcomeOptions) :
    ledgerAfter dateParse start (runs ++ [o]) =
      some (deriveOutcomeEvents dateParse (o.onto (ledgerAfter dateParse start runs))) := by
  simp [ledgerAfter, foldl_append]

theorem length_chronological (events : List OutcomeEvent) :
    (chronological dateParse events).length = events.length :=
  length_insertionSort _ _

theorem fits_of_length
    (h : (deriveOutcomeEvents dateParse o).length < MAX_LEDGER_EVENTS) : o.Fits dateParse := by
  intro ledger hprior
  by_contra hfull
  have hlength : (deriveOutcomeEvents dateParse o).length = MAX_LEDGER_EVENTS := by
    unfold deriveOutcomeEvents
    simp only [hprior, mergeLedger, if_neg hfull, length_drop, length_chronological]
    omega
  omega

theorem Accounts.onto
        (h : Accounts (runs ++ [o.onto found]) ledger) : Accounts (runs ++ [o]) ledger := by
  refine ⟨fun e he => ?_, fun identity signal => ?_, h.once⟩
  · obtain ⟨o', ho', hat⟩ := h.instants e he
    rcases mem_append.mp ho' with ho' | ho'
    · exact ⟨o', mem_append_left _ ho', hat⟩
    · rw [mem_singleton.mp ho'] at hat
      exact ⟨o, by simp, hat⟩
  · rw [h.total, largestTotal_append_singleton, largestTotal_append_singleton]
    rfl

theorem precedes_onto
    (h : Accounts runs (found.getD []))
    (hincreasing : Increasing dateParse (runs ++ [o])) : (o.onto found).Precedes dateParse := by
  intro ledger hledger e he
  obtain rfl : found = some ledger := hledger
  obtain ⟨o', ho', hat⟩ := h.instants e he
  rw [hat]
  exact (pairwise_append.mp hincreasing).2.2 o' ho' o (by simp)

/-- What every run finds: a ledger that accounts for the runs before, and is older. -/
theorem accounts_ledgerAfter {start : Option (List OutcomeEvent)} (hstart : start.getD [] = [])
    (runs : List DeriveOutcomeOptions) (hincreasing : Increasing dateParse runs)
    (hbelow : BelowCap dateParse start runs) :
    Accounts runs ((ledgerAfter dateParse start runs).getD []) ∧
      (FirstDistinct dateParse start runs →
        (((ledgerAfter dateParse start runs).getD []).map eventKey).Nodup) := by
  induction runs using List.reverseRecOn with
  | nil =>
    change Accounts [] (start.getD []) ∧ (_ → ((start.getD []).map eventKey).Nodup)
    rw [hstart]
    exact ⟨accounts_nil, fun _ => nodup_nil⟩
  | append_singleton runs o ih =>
    obtain ⟨haccounts, -⟩ := ih (pairwise_append.mp hincreasing).1 fun earlier o' h =>
      hbelow earlier o' (h.trans (prefix_append _ _))
    have hp := precedes_onto haccounts hincreasing
    have hf := fits_of_length (hbelow runs o (prefix_refl _))
    rw [ledgerAfter_append_singleton, Option.getD_some]
    refine ⟨(Accounts.derive (o := o.onto (ledgerAfter dateParse start runs)) haccounts hp hf).onto,
      fun hfirst => ?_⟩
    cases hledger : ledgerAfter dateParse start runs with
    | none =>
      -- only a first run finds nothing
      obtain rfl | ⟨runs', o', rfl⟩ := eq_nil_or_concat runs
      · exact hfirst hledger o (by simp)
      · rw [concat_eq_append, ledgerAfter_append_singleton] at hledger
        cases hledger
    | some ledger =>
      rw [hledger] at hp hf
      have hderive := @mergedEvents_eq dateParse _ hp ledger rfl
      rw [derive_eq hp hf, ← hderive]
      exact nodup_distinctBy

/-- Over any runs with increasing instants and ledgers below the cap, the feedback of the ledger adds up
to the largest totals observed; and the last run once more, on its own ledger, leaves it unchanged, unless
a first run without prior ledger left exact duplicates. -/
theorem reactions_counted_once (start : Option (List OutcomeEvent))
    (hstart : start = none ∨ start = some []) (runs : List DeriveOutcomeOptions)
    (last : DeriveOutcomeOptions) (hincreasing : Increasing dateParse (runs ++ [last]))
    (hbelow : BelowCap dateParse start (runs ++ [last])) :
    let ledger := deriveOutcomeEvents dateParse (last.onto (ledgerAfter dateParse start runs))
    (∀ identity signal,
      feedbackTotal ledger identity signal = largestTotal (runs ++ [last]) identity signal) ∧
    (FirstDistinct dateParse start (runs ++ [last]) →
      deriveOutcomeEvents dateParse (last.onto (some ledger)) = ledger) := by
  intro ledger
  have hempty : start.getD [] = [] := by rcases hstart with rfl | rfl <;> rfl
  obtain ⟨hbefore, hdistinct⟩ := accounts_ledgerAfter hempty runs
    (pairwise_append.mp hincreasing).1 fun earlier o' h =>
      hbelow earlier o' (h.trans (prefix_append _ _))
  obtain ⟨hafter, hdistinct'⟩ := accounts_ledgerAfter hempty (runs ++ [last]) hincreasing hbelow
  rw [ledgerAfter_append_singleton, Option.getD_some] at hafter hdistinct'
  refine ⟨hafter.total, fun hfirst => ?_⟩
  have hfound : (((ledgerAfter dateParse start runs).getD []).map eventKey).Nodup := by
    cases runs with
    | nil =>
      change ((start.getD []).map eventKey).Nodup
      rw [hempty]
      exact nodup_nil
    | cons first rest => exact hdistinct hfirst
  have hlength := hbelow runs last (prefix_refl _)
  exact rerun_eq (o := last.onto (ledgerAfter dateParse start runs)) hbefore
    (precedes_onto hbefore hincreasing) (fits_of_length hlength) hfound (hdistinct' hfirst)
    hlength.le

/-! ## Two runs -/

namespace TwoRuns

/-- `Date.parse` of the two instants. -/
def instants (text : String) : Option Int :=
  if text = "2026-01-01T00:00:00Z" then some 1767225600000
  else if text = "2026-01-02T00:00:00Z" then some 1767312000000
  else none

def finding : String := "aaaaaaaaaaaaaaaaaaaaaaaaaaaaaaaaaaaaaaaaaaaaaaaaaaaaaaaaaaaaaaaa"

def run (at' : String) (prior : List PriorFindingObservation) : DeriveOutcomeOptions where
  postedIdentities := []
  prior := prior
  priorHeadSha := some "aaa"
  currentHeadSha := "bbb"
  route := none
  model := none
  at' := at'
  priorLedger := none

/-- Two comments of the finding with two reactions, then one of them with one. -/
def first : DeriveOutcomeOptions :=
  run "2026-01-01T00:00:00Z" [⟨finding, some false, ⟨1, 0⟩⟩, ⟨finding, none, ⟨1, 0⟩⟩]

def second : DeriveOutcomeOptions := run "2026-01-02T00:00:00Z" [⟨finding, some false, ⟨1, 0⟩⟩]

/-- Two open threads of the finding. -/
def openTwice : DeriveOutcomeOptions :=
  run "2026-01-01T00:00:00Z" [⟨finding, some false, ⟨0, 0⟩⟩, ⟨finding, some false, ⟨0, 0⟩⟩]

end TwoRuns

open TwoRuns in
theorem reactions_counted_once_twice :
    let ledger := deriveOutcomeEvents instants
      (second.onto (ledgerAfter instants none [first]))
    (∀ identity signal,
      feedbackTotal ledger identity signal = largestTotal [first, second] identity signal) ∧
    (FirstDistinct instants none [first, second] →
      deriveOutcomeEvents instants (second.onto (some ledger)) = ledger) := by
  refine reactions_counted_once none (.inl rfl) [first] second (by unfold Increasing; decide) ?_
  rintro earlier o ⟨rest, hrest⟩
  match earlier, hrest with
  | [], hrest =>
    obtain ⟨rfl, -⟩ := cons_eq_cons.mp hrest
    decide
  | [e], hrest =>
    obtain ⟨he, htail⟩ := cons_eq_cons.mp hrest
    obtain ⟨ho, -⟩ := cons_eq_cons.mp htail
    rw [he, ho]
    decide
  | _ :: _ :: _, hrest => simp at hrest

open TwoRuns in
/-- The ledger of a first run without a prior one says the same twice, and loses it on the second pass. -/
theorem rerun_drops_duplicate : ¬ ∀ (dateParse : String → Option Int) (runs : List DeriveOutcomeOptions)
    (last : DeriveOutcomeOptions), Increasing dateParse (runs ++ [last]) →
    BelowCap dateParse none (runs ++ [last]) →
    let ledger := deriveOutcomeEvents dateParse (last.onto (ledgerAfter dateParse none runs))
    deriveOutcomeEvents dateParse (last.onto (some ledger)) = ledger := by
  intro hall
  have hbelow : BelowCap instants none ([] ++ [openTwice]) := by
    rintro earlier o ⟨rest, hrest⟩
    match earlier, hrest with
    | [], hrest =>
      obtain ⟨rfl, -⟩ := cons_eq_cons.mp hrest
      decide
    | _ :: _, hrest => simp at hrest
  exact absurd (hall instants [] openTwice (by unfold Increasing; decide) hbelow) (by decide)

end PrReviewer.Outcomes
