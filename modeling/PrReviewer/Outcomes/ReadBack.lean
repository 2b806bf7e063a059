import PrReviewer.Js.Lines
import PrReviewer.Outcomes.Schema

/-!
# Reading a ledger back

A ledger of proven events is read back from its text, its latest events with it, exactly when each of its texts comes
out of the rule for texts as it went in (`ledger_readsBack_iff`). The rule trims, redacts and cuts, in this order, so a
cut that ends in white space, or inside a mark that redacts to something else, is changed by the second pass.
-/

namespace PrReviewer.Outcomes

open Js Js.Json Evidence List

/-! ## Words -/

theorem named_kind (kind : OutcomeEventKind) :
    named OutcomeEventKind.text EVENT_KINDS (.string kind.text) = some kind := by
  cases kind <;> rfl

theorem named_provenance (provenance : OutcomeProvenance) :
    named OutcomeProvenance.text PROVENANCES (.string provenance.text) = some provenance := by
  cases provenance <;> rfl

theorem named_label (label : AdjudicationLabel) :
    named AdjudicationLabel.text ADJUDICATION_LABELS (.string label.text) = some label := by
  cases label <;> rfl

theorem named_signal (signal : FeedbackSignal) :
    named FeedbackSignal.text FEEDBACK_SIGNALS (.string signal.text) = some signal := by
  cases signal <;> rfl

/-! ## The fields of an event's value -/

theorem lookup_optional (key key' : String) (value : Option Value) (fields : List (String × Value)) :
    (optional key' value ++ fields).lookup key = if key = key' then value.or (fields.lookup key) else fields.lookup key := by
  cases value with
  | none => simp [optional]
  | some v =>
    by_cases h : key = key'
    · simp [optional, h]
    · have hne : (key == key') = false := beq_eq_false_iff_ne.mpr h
      simp [optional, lookup_cons, h, hne]

theorem lookup_optional_last (key key' : String) (value : Option Value) :
    (optional key' value).lookup key = if key = key' then value else none := by
  have h := lookup_optional key key' value []
  rw [append_nil, lookup_nil, Option.or_none] at h
  exact h

section

variable (e : OutcomeEvent)

theorem toValue_finding_id : e.toValue.get "finding_id" = .string e.finding_id := rfl
theorem toValue_kind : e.toValue.get "kind" = .string e.kind.text := rfl
theorem toValue_at : e.toValue.get "at" = nullable e.at' := rfl
theorem toValue_head_sha : e.toValue.get "head_sha" = nullable e.head_sha := rfl
theorem toValue_route : e.toValue.get "route" = nullable e.route := rfl
theorem toValue_model : e.toValue.get "model" = nullable e.model := rfl
theorem toValue_provenance : e.toValue.get "provenance" = .string e.provenance.text := rfl

theorem toValue_reason : e.toValue.get "reason" = (e.reason.map Value.string).getD .undefined := by
  simp [OutcomeEvent.toValue, Value.get, lookup_cons, lookup_optional, lookup_optional_last]

theorem toValue_label : e.toValue.get "label" = (e.label.map fun label => Value.string label.text).getD .undefined := by
  simp [OutcomeEvent.toValue, Value.get, lookup_cons, lookup_optional, lookup_optional_last]

theorem toValue_actor : e.toValue.get "actor" = (e.actor.map Value.string).getD .undefined := by
  simp [OutcomeEvent.toValue, Value.get, lookup_cons, lookup_optional, lookup_optional_last]

theorem toValue_signal :
    e.toValue.get "signal" = (e.signal.map fun signal => Value.string signal.text).getD .undefined := by
  simp [OutcomeEvent.toValue, Value.get, lookup_cons, lookup_optional, lookup_optional_last]

theorem toValue_count : e.toValue.get "count" = (e.count.map Value.count).getD .undefined := by
  simp [OutcomeEvent.toValue, Value.get, lookup_cons, lookup_optional, lookup_optional_last]

theorem toValue_trusted : e.toValue.get "trusted" = (e.trusted.map Value.bool).getD .undefined := by
  simp [OutcomeEvent.toValue, Value.get, lookup_cons, lookup_optional, lookup_optional_last]

end

/-! ## Proven events -/

/-- An event carries what its kind carries, and nothing that another kind does. -/
def KindFields (e : OutcomeEvent) : Prop :=
  match e.kind with
  | .dismissed => e.reason.isSome ∧ e.label = none ∧ e.actor = none ∧ e.signal = none ∧ e.count = none ∧ e.trusted = none
  | .adjudication =>
    e.reason = none ∧ e.label.isSome ∧ e.actor.isSome ∧ e.signal = none ∧ e.count = none ∧ e.trusted = none
  | .feedback =>
    e.reason = none ∧ e.label = none ∧ e.actor = none ∧ e.signal.isSome ∧ (∀ n, e.count = some n → n ≤ MAX_FEEDBACK_COUNT) ∧
      e.trusted = some false
  | _ => e.reason = none ∧ e.label = none ∧ e.actor = none ∧ e.signal = none ∧ e.count = none ∧ e.trusted = none

section

variable (redactText : String → String) (dateParse : String → Option Int)

/-- What is true of every result of `normalizeOutcomeEvent`, its texts apart. -/
structure Proven (e : OutcomeEvent) : Prop where
  finding_id : isFindingId e.finding_id = true
  provenance : KIND_PROVENANCE e.kind = e.provenance
  instant : ∀ t, e.at' = some t → isoTimestamp dateParse (.string t) = some t
  head_sha : ∀ s, e.head_sha = some s → isProvenHeadSha s = true
  fields : KindFields e

/-- What the rule for texts makes of a text, on the way back. -/
def secondPass (text : Option String) : Option String := text.bind fun t => boundedText redactText (.string t) 200

/-- The text comes out of the rule for texts as it is. -/
def Stays (t : String) : Prop := trim t ≠ "" ∧ firstCodePoints 200 (redactText (trim t)) = t

/-- The texts of an event. -/
def OutcomeEvent.texts (e : OutcomeEvent) : List String :=
  e.route.toList ++ (e.model.toList ++ (e.reason.toList ++ e.actor.toList))

variable {redactText dateParse} {e : OutcomeEvent} {raw : Value}

theorem boundedText_nullable (text : Option String) :
    boundedText redactText (nullable text) 200 = secondPass redactText text := by
  cases text <;> rfl

theorem boundedText_optional (text : Option String) :
    boundedText redactText ((text.map Value.string).getD .undefined) 200 = secondPass redactText text := by
  cases text <;> rfl

theorem secondPass_none : secondPass redactText none = none := rfl

theorem secondPass_eq_iff (text : Option String) :
    secondPass redactText text = text ↔ ∀ t, text = some t → Stays redactText t := by
  cases text with
  | none => simp [secondPass]
  | some t =>
    by_cases hblank : trim t = ""
    · simp [secondPass, boundedText, Value.string?, Stays, hblank]
    · simp [secondPass, boundedText, Value.string?, Stays, hblank]

theorem isoTimestamp_self {value : Value} {t : String} (h : isoTimestamp dateParse value = some t) :
    isoTimestamp dateParse (.string t) = some t := by
  obtain ⟨s, -, h⟩ := Option.bind_eq_some_iff.mp h
  split at h
  · cases h
  · next hform =>
    obtain rfl := Option.some.inj h
    rw [isoTimestamp, Value.string?, Option.bind_some, trim_trim, if_neg hform]

/-- An instant is no controlled text. -/
theorem not_isControlled {t : String} (h : isoTimestamp dateParse (.string t) = some t) :
    isControlled (.string t) = false := by
  rw [isoTimestamp, Value.string?, Option.bind_some] at h
  split at h
  · cases h
  · next hform =>
    simp only [Bool.or_eq_true, not_or, Bool.not_eq_true] at hform
    exact hform.1.1.2

theorem safeCount_count {n : Nat} (h : n ≤ MAX_FEEDBACK_COUNT) : safeCount (.count n) = some n :=
  if_pos (by rw [MAX_FEEDBACK_COUNT] at h; omega)

theorem kindFields_of_withKindFields {event : OutcomeEvent} (h : withKindFields redactText raw event = some e)
    (hnone : event.reason = none ∧ event.label = none ∧ event.actor = none ∧ event.signal = none ∧ event.count = none ∧
      event.trusted = none) :
    KindFields e ∧ e.finding_id = event.finding_id ∧ e.kind = event.kind ∧ e.at' = event.at' ∧
      e.head_sha = event.head_sha ∧ e.route = event.route ∧ e.model = event.model ∧ e.provenance = event.provenance := by
  obtain ⟨hreason, hlabel, hactor, hsignal, hcount, htrusted⟩ := hnone
  unfold withKindFields at h
  cases hkind : event.kind with
  | dismissed =>
    rw [hkind] at h
    obtain ⟨reason, -, h⟩ := Option.bind_eq_some_iff.mp h
    obtain rfl := Option.some.inj h
    simp [KindFields, hlabel, hactor, hsignal, hcount, htrusted]
  | adjudication =>
    rw [hkind] at h
    obtain ⟨label, -, h⟩ := Option.bind_eq_some_iff.mp h
    obtain ⟨actor, -, h⟩ := Option.bind_eq_some_iff.mp h
    obtain rfl := Option.some.inj h
    simp [KindFields, hreason, hsignal, hcount, htrusted]
  | feedback =>
    rw [hkind] at h
    obtain ⟨signal, -, h⟩ := Option.bind_eq_some_iff.mp h
    dsimp only at h
    split at h
    · cases h
    · next hbound =>
      split at h
      · cases h
      · obtain rfl := Option.some.inj h
        refine ⟨?_, by simp⟩
        simp only [KindFields, hreason, hlabel, hactor, Option.isSome_some, true_and, and_true]
        intro n hn
        rw [hn] at hbound
        simpa using hbound
  | _ =>
    rw [hkind] at h
    obtain rfl := Option.some.inj h
    simp [KindFields, hkind, hreason, hlabel, hactor, hsignal, hcount, htrusted]

theorem proven_of_normalize (h : normalizeOutcomeEvent redactText dateParse raw = some e) : Proven dateParse e := by
  unfold normalizeOutcomeEvent at h
  obtain ⟨-, -, h⟩ := Option.bind_eq_some_iff.mp h
  obtain ⟨finding_id, -, h⟩ := Option.bind_eq_some_iff.mp h
  obtain ⟨_, hid, h⟩ := Option.bind_eq_some_iff.mp h
  obtain ⟨kind, -, h⟩ := Option.bind_eq_some_iff.mp h
  obtain ⟨provenance, -, h⟩ := Option.bind_eq_some_iff.mp h
  obtain ⟨_, hprovenance, h⟩ := Option.bind_eq_some_iff.mp h
  obtain ⟨-, -, h⟩ := Option.bind_eq_some_iff.mp h
  rw [Option.guard_eq_some'] at hid hprovenance
  obtain ⟨hfields, hfinding, hkind, hinstant, hhead, -, -, hfrom⟩ :=
    kindFields_of_withKindFields h ⟨rfl, rfl, rfl, rfl, rfl, rfl⟩
  refine ⟨hfinding ▸ hid, ?_, fun t ht => ?_, fun s hs => ?_, hfields⟩
  · rw [hkind, hfrom]
    exact hprovenance
  · rw [hinstant] at ht
    exact isoTimestamp_self ht
  · rw [hhead] at hs
    exact (Option.filter_eq_some_iff.mp hs).2

theorem guard_bind {p : Prop} [Decidable p] (h : p) {α : Type} (f : Unit → Option α) : (guard p >>= f) = f () := by
  rw [guard, if_pos h]
  rfl

/-- A second pass of a proven event reads its texts, and everything else as it is. -/
theorem normalize_toValue_eq (h : Proven dateParse e) :
    normalizeOutcomeEvent redactText dateParse e.toValue = withKindFields redactText e.toValue
      { finding_id := e.finding_id, kind := e.kind, at' := e.at', head_sha := e.head_sha,
        route := secondPass redactText e.route, model := secondPass redactText e.model, provenance := e.provenance } := by
  have hinstant : isoTimestamp dateParse (nullable e.at') = e.at' := by
    cases hat : e.at' with
    | none => rfl
    | some t => exact h.instant t hat
  have hcontrolled : (!isControlled (nullable e.at')) = true := by
    cases hat : e.at' with
    | none => rfl
    | some t =>
      rw [nullable, not_isControlled (h.instant t hat)]
      rfl
  have hhead : (nullable e.head_sha).string?.filter isProvenHeadSha = e.head_sha := by
    cases hsha : e.head_sha with
    | none => rfl
    | some s => exact Option.filter_eq_some_iff.mpr ⟨rfl, h.head_sha s hsha⟩
  unfold normalizeOutcomeEvent
  rw [toValue_finding_id, toValue_kind, toValue_provenance, toValue_at, toValue_head_sha, toValue_route, toValue_model,
    hinstant, hhead, boundedText_nullable, boundedText_nullable, guard_bind (p := isObject e.toValue = true) rfl]
  dsimp only [Value.string?, Option.bind_eq_bind, Option.bind_some]
  rw [named_kind, named_provenance]
  simp only [Option.bind_some]
  have hid := h.finding_id
  have hprovenance := h.provenance
  simp [guard, hid, hprovenance, hcontrolled]

/-- A proven event is a result of its own exactly when its texts stay. -/
theorem normalize_toValue (h : Proven dateParse e) :
    normalizeOutcomeEvent redactText dateParse e.toValue = some e ↔ ∀ t ∈ e.texts, Stays redactText t := by
  have htexts : (∀ t ∈ e.texts, Stays redactText t) ↔ secondPass redactText e.route = e.route ∧
      secondPass redactText e.model = e.model ∧ secondPass redactText e.reason = e.reason ∧
      secondPass redactText e.actor = e.actor := by
    simp only [secondPass_eq_iff, OutcomeEvent.texts, forall_mem_append, Option.mem_toList]
  have hfields := h.fields
  rw [normalize_toValue_eq h, htexts, withKindFields, toValue_reason, toValue_label, toValue_actor, toValue_signal,
    toValue_count, toValue_trusted, boundedText_optional, boundedText_optional]
  obtain ⟨finding_id, kind, instant, head_sha, route, model, provenance, reason, label, actor, signal, count, trusted⟩ := e
  dsimp only at hfields ⊢
  cases kind with
  | dismissed =>
    obtain ⟨hreason, rfl, rfl, rfl, rfl, rfl⟩ := hfields
    obtain ⟨t, rfl⟩ := Option.isSome_iff_exists.mp hreason
    simp only [Option.bind_eq_bind, Option.bind_eq_some_iff, Option.some.injEq, OutcomeEvent.mk.injEq, true_and, and_true,
      secondPass_none]
    constructor
    · rintro ⟨_, hreason, hroute, hmodel, rfl⟩
      exact ⟨hroute, hmodel, hreason⟩
    · rintro ⟨hroute, hmodel, hreason⟩
      exact ⟨t, hreason, hroute, hmodel, rfl⟩
  | adjudication =>
    obtain ⟨rfl, hlabel, hactor, rfl, rfl, rfl⟩ := hfields
    obtain ⟨l, rfl⟩ := Option.isSome_iff_exists.mp hlabel
    obtain ⟨t, rfl⟩ := Option.isSome_iff_exists.mp hactor
    simp only [Option.map_some, Option.getD_some, named_label, Option.bind_eq_bind, Option.bind_some,
      Option.bind_eq_some_iff, Option.some.injEq, OutcomeEvent.mk.injEq, true_and, and_true, secondPass_none]
    constructor
    · rintro ⟨_, hactor, hroute, hmodel, rfl⟩
      exact ⟨hroute, hmodel, hactor⟩
    · rintro ⟨hroute, hmodel, hactor⟩
      exact ⟨t, hactor, hroute, hmodel, rfl⟩
  | feedback =>
    obtain ⟨rfl, rfl, rfl, hsignal, hcount, rfl⟩ := hfields
    obtain ⟨g, rfl⟩ := Option.isSome_iff_exists.mp hsignal
    have hsafe : safeCount ((count.map Value.count).getD .undefined) = count := by
      cases count with
      | none => rfl
      | some n => exact safeCount_count (hcount n rfl)
    have hbound : count.any (MAX_FEEDBACK_COUNT < ·) = false := by
      cases count with
      | none => rfl
      | some n => simpa using hcount n rfl
    simp only [Option.map_some, Option.getD_some, named_signal, Option.bind_eq_bind, Option.bind_some, hsafe, hbound,
      Value.bool?, Option.some.injEq, Bool.false_eq_true, if_false, OutcomeEvent.mk.injEq, true_and, and_true,
      secondPass_none]
  | _ =>
    obtain ⟨rfl, rfl, rfl, rfl, rfl, rfl⟩ := hfields
    simp only [Option.some.injEq, OutcomeEvent.mk.injEq, true_and, and_true, secondPass_none]

theorem nodup_keys_toValue (e : OutcomeEvent) : ∃ fields, e.toValue = .object fields ∧ (fields.map Prod.fst).Nodup := by
  have hoptional : ∀ (key : String) (value : Option Value), ((optional key value).map Prod.fst).Sublist [key] := by
    intro key value
    cases value with
    | none => exact nil_sublist _
    | some v => exact List.Sublist.refl _
  refine ⟨_, rfl, ?_⟩
  have hsub := ((hoptional "reason" (e.reason.map .string)).append <|
    (hoptional "label" (e.label.map fun label => .string label.text)).append <|
    (hoptional "actor" (e.actor.map .string)).append <|
    (hoptional "signal" (e.signal.map fun signal => .string signal.text)).append <|
    (hoptional "count" (e.count.map .count)).append (hoptional "trusted" (e.trusted.map .bool)))
  have hall := (List.Sublist.refl ["finding_id", "kind", "at", "head_sha", "route", "model", "provenance"]).append hsub
  refine List.Nodup.sublist ?_ (by decide : (["finding_id", "kind", "at", "head_sha", "route", "model", "provenance"] ++
    (["reason"] ++ (["label"] ++ (["actor"] ++ (["signal"] ++ (["count"] ++ ["trusted"])))))).Nodup)
  simpa only [map_append, map_cons, map_nil] using hall

theorem plain_nullable (text : Option String) : Plain (nullable text) := by
  cases text with
  | none => exact .null
  | some t => exact .string t

/-- The value of a proven event is read back as it is. -/
theorem plain_toValue (h : Proven dateParse e) : Plain e.toValue := by
  have hoptional : ∀ (key : String) (value : Option Value), (∀ v, value = some v → Plain v) →
      ∀ f ∈ optional key value, Plain f.2 := by
    rintro key (_ | v) hplain f hf
    · cases hf
    · obtain rfl := mem_singleton.mp hf
      exact hplain v rfl
  have hcount : ∀ n, e.count = some n → n < 2 ^ 53 := by
    intro n hn
    have hfields := h.fields
    unfold KindFields at hfields
    split at hfields
    · rw [hfields.2.2.2.2.1] at hn
      cases hn
    · rw [hfields.2.2.2.2.1] at hn
      cases hn
    · exact Nat.lt_of_le_of_lt (hfields.2.2.2.2.1 n hn) (by decide)
    · rw [hfields.2.2.2.2.1] at hn
      cases hn
  obtain ⟨fields, hobject, hkeys⟩ := nodup_keys_toValue e
  rw [hobject]
  refine .object hkeys fun f hf => ?_
  obtain rfl := Value.object.inj hobject
  simp only [mem_append, mem_cons, not_mem_nil, or_false] at hf
  rcases hf with (rfl | rfl | rfl | rfl | rfl | rfl | rfl) | hf | hf | hf | hf | hf | hf
  · exact .string _
  · exact .string _
  · exact plain_nullable _
  · exact plain_nullable _
  · exact plain_nullable _
  · exact plain_nullable _
  · exact .string _
  · exact hoptional _ _ (by simp only [Option.map_eq_some_iff]; rintro _ ⟨t, -, rfl⟩; exact .string t) f hf
  · exact hoptional _ _ (by simp only [Option.map_eq_some_iff]; rintro _ ⟨l, -, rfl⟩; exact .string _) f hf
  · exact hoptional _ _ (by simp only [Option.map_eq_some_iff]; rintro _ ⟨t, -, rfl⟩; exact .string t) f hf
  · exact hoptional _ _ (by simp only [Option.map_eq_some_iff]; rintro _ ⟨g, -, rfl⟩; exact .string _) f hf
  · exact hoptional _ _ (by simp only [Option.map_eq_some_iff]; rintro _ ⟨n, hn, rfl⟩; exact .count (hcount n hn)) f hf
  · exact hoptional _ _ (by simp only [Option.map_eq_some_iff]; rintro _ ⟨b, -, rfl⟩; exact .bool b) f hf

end

/-! ## The text of a ledger -/

/-- The precision of the ledger's aggregate is a number that JSON has. -/
def OutcomeLedger.FinitePrecision (l : OutcomeLedger) : Prop :=
  ∀ x, l.aggregate.adjudicated.precision = some x → x.isFinite = true

theorem readable_reactions (helpful notHelpful : Nat) :
    Readable (.object [("helpful", .count helpful), ("not_helpful", .count notHelpful)]) := by
  refine Readable.object ?_ (by simp)
  simp only [forall_mem_cons]
  exact ⟨readable_count _, readable_count _, forall_mem_nil _⟩

theorem readable_aggregate (aggregate : OutcomeAggregate)
    (h : ∀ x, aggregate.adjudicated.precision = some x → x.isFinite = true) : Readable aggregate.toValue := by
  have hprecision : Readable ((aggregate.adjudicated.precision.map Value.number).getD .null) := by
    cases hp : aggregate.adjudicated.precision with
    | none => exact readable_of_plain .null
    | some x => exact readable_number (h x hp)
  have hadjudicated : Readable aggregate.adjudicated.toValue := by
    refine Readable.object ?_ (by simp)
    simp only [forall_mem_cons]
    exact ⟨readable_count _, readable_count _, readable_count _, readable_count _, hprecision, forall_mem_nil _⟩
  refine Readable.object ?_ (by simp)
  simp only [forall_mem_cons]
  exact ⟨readable_count _, readable_count _, readable_count _, readable_count _, readable_count _, readable_reactions _ _,
    hadjudicated, forall_mem_nil _⟩

theorem unreadable_aggregate {aggregate : OutcomeAggregate} {x : Number}
    (h : aggregate.adjudicated.precision = some x) (hx : x.isFinite = false) : Unreadable aggregate.toValue := by
  have hadjudicated : Unreadable aggregate.adjudicated.toValue := by
    rw [Adjudicated.toValue, h]
    refine @Unreadable.object ("precision", .number x) (unreadable_number hx)
      [("confirmed_valid_defect", _), ("confirmed_false_positive", _), ("valid_but_unhelpful", _), ("uncertain", _)]
      ?_ (by simp) []
    simp only [forall_mem_cons]
    exact ⟨readable_count _, readable_count _, readable_count _, readable_count _, forall_mem_nil _⟩
  refine @Unreadable.object ("adjudicated", aggregate.adjudicated.toValue) hadjudicated
    [("unique_findings", _), ("open", _), ("resolved", _), ("dismissed", _), ("unknown", _), ("reactions", _)]
    ?_ (by simp) []
  simp only [forall_mem_cons]
  exact ⟨readable_count _, readable_count _, readable_count _, readable_count _, readable_count _, readable_reactions _ _,
    forall_mem_nil _⟩

section

variable {redactText : String → String} {dateParse : String → Option Int} {l : OutcomeLedger}

/-- What is read of the text of a ledger. -/
theorem parse_serializeOutcomeLedger (hevents : ∀ e ∈ l.events, Proven dateParse e) (h : l.FinitePrecision) :
    ∃ v, Json.parse (serializeOutcomeLedger l) = some (.object
      [("schema", .string l.schema), ("generated_at", .string l.generated_at), ("head_sha", .string l.head_sha),
        ("route", nullable l.route), ("model", nullable l.model),
        ("events", .array (l.events.map OutcomeEvent.toValue)), ("aggregate", v)]) := by
  obtain ⟨v, hv⟩ := readable_aggregate l.aggregate h 1
  have hplain : Plain (.array (l.events.map OutcomeEvent.toValue)) := by
    refine .array fun x hx => ?_
    obtain ⟨e, he, rfl⟩ := mem_map.mp hx
    exact plain_toValue (hevents e he)
  refine ⟨v, parse_of_readAs ?_⟩
  rw [OutcomeLedger.toValue, encodeValue, encodeMembers_eq_map]
  refine ReadAs.block_object ?_ (by simp) 0
  simp only [map_cons, map_nil]
  exact .cons ⟨rfl, readAs_encodeValue (.string _) 1⟩ <| .cons ⟨rfl, readAs_encodeValue (.string _) 1⟩ <|
    .cons ⟨rfl, readAs_encodeValue (.string _) 1⟩ <| .cons ⟨rfl, readAs_encodeValue (plain_nullable _) 1⟩ <|
    .cons ⟨rfl, readAs_encodeValue (plain_nullable _) 1⟩ <| .cons ⟨rfl, readAs_encodeValue hplain 1⟩ <|
    .cons ⟨rfl, hv⟩ .nil

theorem parse_serializeOutcomeLedger_none (hevents : ∀ e ∈ l.events, Proven dateParse e) {x : Number}
    (h : l.aggregate.adjudicated.precision = some x) (hx : x.isFinite = false) :
    Json.parse (serializeOutcomeLedger l) = none := by
  have hplain : Plain (.array (l.events.map OutcomeEvent.toValue)) := by
    refine .array fun x hx => ?_
    obtain ⟨e, he, rfl⟩ := mem_map.mp hx
    exact plain_toValue (hevents e he)
  refine parse_of_unread (@Unreadable.object ("aggregate", l.aggregate.toValue) (unreadable_aggregate h hx)
    [("schema", _), ("generated_at", _), ("head_sha", _), ("route", _), ("model", _), ("events", _)] ?_ (by simp) [] 0)
  simp only [forall_mem_cons]
  exact ⟨readable_of_plain (.string _), readable_of_plain (.string _), readable_of_plain (.string _),
    readable_of_plain (plain_nullable _), readable_of_plain (plain_nullable _), readable_of_plain hplain,
    forall_mem_nil _⟩

theorem trim_serializeOutcomeLedger (l : OutcomeLedger) : trim (serializeOutcomeLedger l) ≠ "" := by
  have htext : ∃ cs, serializeOutcomeLedger l = String.ofList ('{' :: cs) := by
    rw [serializeOutcomeLedger, pyJsonDumps, OutcomeLedger.toValue, encodeValue, encodeMembers_eq_map]
    exact ⟨_, rfl⟩
  obtain ⟨cs, hcs⟩ := htext
  obtain ⟨text, spaces, -, htrim, hhead⟩ := exists_trim cs (c := '{') (by decide)
  rw [hcs, htrim]
  intro hnil
  rw [String.ofList_eq_empty_iff] at hnil
  rw [hnil] at hhead
  cases hhead

end

/-! ## Reading it back -/

section

variable (redactText : String → String) (dateParse : String → Option Int)

/-- A ledger of results of `normalizeOutcomeEvent`, its head proven, its instant one, its texts bounded. -/
structure OutcomeLedger.Normalized (l : OutcomeLedger) : Prop where
  events : ∀ e ∈ l.events, ∃ raw, normalizeOutcomeEvent redactText dateParse raw = some e
  head_sha : isProvenHeadSha l.head_sha = true
  generated_at : (isoTimestamp dateParse (.string l.generated_at)).isSome = true
  route : ∃ raw, boundedText redactText raw 200 = l.route
  model : ∃ raw, boundedText redactText raw 200 = l.model

/-- Every event is a result of its own, and the text gives back the latest events, with their aggregate. -/
def ReadsBack (l : OutcomeLedger) : Prop :=
  (∀ e ∈ l.events, normalizeOutcomeEvent redactText dateParse e.toValue = some e) ∧
  ∃ l', parseOutcomeLedger redactText dateParse (serializeOutcomeLedger l) = some l' ∧
    l'.events = latestEvents dateParse l.events ∧ l'.route = l.route ∧ l'.model = l.model ∧
    l'.aggregate = aggregateOutcomeEvents dateParse (latestEvents dateParse l.events)

/-- The texts of a ledger. -/
def OutcomeLedger.texts (l : OutcomeLedger) : List String :=
  l.route.toList ++ (l.model.toList ++ l.events.flatMap OutcomeEvent.texts)

variable {redactText dateParse} {l : OutcomeLedger}

theorem mapM_toValue {events : List OutcomeEvent}
    (h : ∀ e ∈ events, normalizeOutcomeEvent redactText dateParse e.toValue = some e) :
    (events.map OutcomeEvent.toValue).mapM (normalizeOutcomeEvent redactText dateParse) = some events := by
  induction events with
  | nil => rfl
  | cons e es ih =>
    rw [map_cons, mapM_cons, h e mem_cons_self, ih fun e' he' => h e' (mem_cons_of_mem e he')]
    rfl

theorem texts_iff (l : OutcomeLedger) : (∀ t ∈ l.texts, Stays redactText t) ↔
    secondPass redactText l.route = l.route ∧ secondPass redactText l.model = l.model ∧
      ∀ e ∈ l.events, ∀ t ∈ e.texts, Stays redactText t := by
  simp only [secondPass_eq_iff, OutcomeLedger.texts, forall_mem_append, Option.mem_toList, forall_mem_flatMap]

/-- A ledger that is read has the schema, and is its texts' second pass. -/
theorem readLedger_eq_some_iff (hhead : isProvenHeadSha l.head_sha = true)
    (hinstant : (isoTimestamp dateParse (.string l.generated_at)).isSome = true)
    (hevents : ∀ e ∈ l.events, normalizeOutcomeEvent redactText dateParse e.toValue = some e) (v : Value)
    (l' : OutcomeLedger) :
    readLedger redactText dateParse (.object
      [("schema", .string l.schema), ("generated_at", .string l.generated_at), ("head_sha", .string l.head_sha),
        ("route", nullable l.route), ("model", nullable l.model),
        ("events", .array (l.events.map OutcomeEvent.toValue)), ("aggregate", v)]) = some l' ↔
      l.schema = FINDING_OUTCOMES_SCHEMA ∧
        { schema := FINDING_OUTCOMES_SCHEMA
          generated_at := (isoTimestamp dateParse (.string l.generated_at)).get hinstant
          head_sha := l.head_sha
          route := secondPass redactText l.route
          model := secondPass redactText l.model
          events := latestEvents dateParse l.events
          aggregate := aggregateOutcomeEvents dateParse (latestEvents dateParse l.events) } = l' := by
  obtain ⟨instant, hisome⟩ := Option.isSome_iff_exists.mp hinstant
  have hget : (isoTimestamp dateParse (.string l.generated_at)).get hinstant = instant := by
    simp only [hisome, Option.get_some]
  have hsha : (some l.head_sha).filter isProvenHeadSha = some l.head_sha := Option.filter_eq_some_iff.mpr ⟨rfl, hhead⟩
  rw [hget]
  simp [readLedger, isObject, Value.get, lookup_cons, Value.string?, hisome, hsha, array?, mapM_toValue hevents,
    boundedText_nullable, Option.bind_eq_some_iff, Option.guard_eq_some']

/-- A ledger is read back exactly when it carries the schema, its precision is finite and its texts stay. -/
theorem ledger_readsBack_iff (h : l.Normalized redactText dateParse) : ReadsBack redactText dateParse l ↔
    l.schema = FINDING_OUTCOMES_SCHEMA ∧ l.FinitePrecision ∧ ∀ t ∈ l.texts, Stays redactText t := by
  have hproven : ∀ e ∈ l.events, Proven dateParse e := fun e he => by
    obtain ⟨raw, hraw⟩ := h.events e he
    exact proven_of_normalize hraw
  have hparse : ∀ {parsed : Option Value}, Json.parse (serializeOutcomeLedger l) = parsed →
      parseOutcomeLedger redactText dateParse (serializeOutcomeLedger l) =
        parsed.bind (readLedger redactText dateParse) := by
    rintro parsed rfl
    exact if_neg (trim_serializeOutcomeLedger l)
  rw [texts_iff]
  constructor
  · rintro ⟨hevents, l', hread, -, hroute, hmodel, -⟩
    have hfinite : l.FinitePrecision := by
      intro x hx
      rw [← Bool.not_eq_false]
      intro hinfinite
      rw [hparse (parse_serializeOutcomeLedger_none hproven hx hinfinite)] at hread
      cases hread
    obtain ⟨v, hv⟩ := parse_serializeOutcomeLedger hproven hfinite
    rw [hparse hv, Option.bind_some, readLedger_eq_some_iff h.head_sha h.generated_at hevents] at hread
    obtain ⟨hschema, rfl⟩ := hread
    exact ⟨hschema, hfinite, hroute, hmodel, fun e he => (normalize_toValue (hproven e he)).mp (hevents e he)⟩
  · rintro ⟨hschema, hfinite, hroute, hmodel, hstay⟩
    have hevents : ∀ e ∈ l.events, normalizeOutcomeEvent redactText dateParse e.toValue = some e :=
      fun e he => (normalize_toValue (hproven e he)).mpr (hstay e he)
    obtain ⟨v, hv⟩ := parse_serializeOutcomeLedger hproven hfinite
    have hread := (readLedger_eq_some_iff h.head_sha h.generated_at hevents v _).mpr ⟨hschema, rfl⟩
    exact ⟨hevents, _, (hparse hv).trans hread, rfl, hroute, hmodel, rfl⟩

/-! ## A text that does not stay -/

section Example

/-- Every text is an instant. -/
def anyInstant (_ : String) : Option Int := some 0

def anId : String := String.ofList (List.replicate 64 'a')

/-- A thread that was resolved without a change, with the reason that was given. -/
def dismissal (reason : String) : OutcomeEvent where
  finding_id := anId
  kind := .dismissed
  at' := some "2026-01-01T00:00:00Z"
  head_sha := none
  route := none
  model := none
  provenance := .forgeThread
  reason := some reason

def ledgerOf (event : OutcomeEvent) : OutcomeLedger where
  schema := FINDING_OUTCOMES_SCHEMA
  generated_at := "2026-01-01T00:00:00Z"
  head_sha := "a"
  route := none
  model := none
  events := [event]
  aggregate := aggregateOutcomeEvents anyInstant [event]

/-- A candidate whose reason has white space as its 200th code point. -/
def longReason : String := String.ofList (List.replicate 199 'a' ++ [' ', 'b'])

/-- The reason as it is cut. -/
def cutReason : String := String.ofList (List.replicate 199 'a' ++ [' '])

theorem proven_dismissal (reason : String) : Proven anyInstant (dismissal reason) where
  finding_id := (by decide +kernel : isFindingId anId = true)
  provenance := rfl
  instant t ht := by
    obtain rfl := Option.some.inj ht
    decide +kernel
  head_sha _ hs := nomatch hs
  fields := ⟨rfl, rfl, rfl, rfl, rfl, rfl⟩

theorem normalize_dismissal {reason reason' : String} (h : secondPass id (some reason) = some reason') :
    normalizeOutcomeEvent id anyInstant (dismissal reason).toValue = some (dismissal reason') := by
  have hreason : boundedText id ((dismissal reason).toValue.get "reason") 200 = some reason' := by
    rw [toValue_reason, boundedText_optional]
    exact h
  rw [normalize_toValue_eq (proven_dismissal reason)]
  unfold withKindFields
  dsimp only [dismissal] at hreason ⊢
  rw [hreason]
  rfl

theorem normalized_ledgerOf {reason reason' : String} (h : secondPass id (some reason) = some reason') :
    (ledgerOf (dismissal reason')).Normalized id anyInstant where
  events e he := by
    obtain rfl := mem_singleton.mp he
    exact ⟨_, normalize_dismissal h⟩
  head_sha := (by decide +kernel : isProvenHeadSha "a" = true)
  generated_at := (by decide +kernel : (isoTimestamp anyInstant (.string "2026-01-01T00:00:00Z")).isSome = true)
  route := ⟨.null, rfl⟩
  model := ⟨.null, rfl⟩

theorem secondPass_ofList {cs text cut : List Char} (htrim : trimEnd (cs.dropWhile isSpace) = text) (hne : text ≠ [])
    (hcut : text.take 200 = cut) : secondPass id (some (String.ofList cs)) = some (String.ofList cut) := by
  have hlist : trim (String.ofList cs) = String.ofList text := by
    rw [← String.toList_inj, trim_toList, String.toList_ofList, String.toList_ofList, htrim]
  have hblank : String.ofList text ≠ "" := by rwa [ne_eq, String.ofList_eq_empty_iff]
  rw [secondPass, Option.bind_some, boundedText, Value.string?, Option.bind_some, hlist, if_neg hblank, firstCodePoints,
    id, String.toList_ofList, hcut]

theorem ledger_readsBack_iff_stale : ReadsBack id anyInstant (ledgerOf (dismissal "stale")) := by
  have hnormalized : (ledgerOf (dismissal "stale")).Normalized id anyInstant :=
    @normalized_ledgerOf "stale" "stale" (by decide +kernel)
  refine (ledger_readsBack_iff hnormalized).mpr ⟨rfl, fun x hx => ?_, fun t ht => ?_⟩
  · have hnone : (aggregateOutcomeEvents anyInstant [dismissal "stale"]).adjudicated.precision.isNone = true := by
      decide +kernel
    rw [ledgerOf] at hx
    dsimp only at hx
    rw [hx] at hnone
    cases hnone
  · have htexts : (ledgerOf (dismissal "stale")).texts = ["stale"] := by decide +kernel
    rw [htexts, mem_singleton] at ht
    rw [ht, Stays]
    decide +kernel

/-- The cut of a reason can end in white space, which the next reading takes away. -/
theorem cut_reason_changes : ¬∀ (redactText : String → String) (dateParse : String → Option Int),
    (∀ t, redactText (redactText t) = redactText t) → ∀ l : OutcomeLedger, l.schema = FINDING_OUTCOMES_SCHEMA →
      l.aggregate = aggregateOutcomeEvents dateParse l.events → l.Normalized redactText dateParse →
        ReadsBack redactText dateParse l := by
  intro hall
  have hcut : secondPass id (some longReason) = some cutReason :=
    @secondPass_ofList _ (List.replicate 199 'a' ++ [' ', 'b']) _ (by decide +kernel) (by decide +kernel) (by decide +kernel)
  obtain ⟨hevents, -⟩ := hall id anyInstant (fun _ => rfl) _ rfl rfl (normalized_ledgerOf hcut)
  have hback := hevents (dismissal cutReason) mem_cons_self
  have hagain : secondPass id (some cutReason) = some (String.ofList (List.replicate 199 'a')) :=
    @secondPass_ofList _ (List.replicate 199 'a') _ (by decide +kernel) (by decide +kernel) (by decide +kernel)
  rw [normalize_dismissal hagain] at hback
  have hreason := congrArg OutcomeEvent.reason (Option.some.inj hback)
  have hlength := congrArg List.length (String.ofList_injective (Option.some.inj hreason))
  rw [length_append, length_replicate] at hlength
  exact absurd hlength (by decide)

end Example

end

end PrReviewer.Outcomes
