import PrReviewer.Followup.Saved

/-!
# Charges are exactly-once

As long as the keys of a run fit under the cap, no scope is evicted, and a commit changes the charges of the
ledger in one way only (`saved_spec`): it adds its own charge on each of its keys, and drops what is below the
horizons. So a charge stays until a commit at or after its horizon (`kept_run`), a charge with an identity
comes from a request of that identity (`origin_run`), and a repeated request finds itself charged
(`charged_once`).
-/

open Js List

namespace PrReviewer.Followup

variable {options : RateLimitOptions} {requestDigest : String → String}

/-! ## The ledger of a file -/

/-- The ledger of a file, empty for one that is missing or not accepted. -/
def ledgerOf (options : RateLimitOptions) (file : Option String) : Ledger :=
  (loadLedgerUnlocked options file).toOption.join.getD .empty

theorem ledgerOf_ok (file : Option String) : LedgerOk (ledgerOf options file) := by
  unfold ledgerOf
  cases h : loadLedgerUnlocked options file with
  | error e => exact .empty
  | ok loaded => exact (loaded_ok h).1

theorem ledgerOf_of_loaded {file : Option String} {loaded : Option Ledger}
    (h : loadLedgerUnlocked options file = .ok loaded) : ledgerOf options file = loaded.getD .empty := by
  rw [ledgerOf, h]
  rfl

variable {ledger : Ledger}

/-- A ledger that fits is the ledger of its file. -/
theorem chargesOf_serializeLedger (h : Fits options ledger) (k : String) :
    chargesOf (ledgerOf options (some (serializeLedger ledger))) k = chargesOf ledger k := by
  obtain ⟨l, hl, hsame⟩ := parseLedger_serializeLedger h.1 h.2
  have hloaded : loadLedgerUnlocked options (some (serializeLedger ledger)) = .ok (some l) := by
    rw [loadLedgerUnlocked, hl]
    rfl
  rw [ledgerOf_of_loaded hloaded, chargesOf, chargesOf]
  exact congrArg (Option.getD · []) (hsame k)

/-! ## Calls -/

namespace Call

/-- The keys that a call charges. -/
def keys (options : RateLimitOptions) : Call → List String
  | .record key _ => [key]
  | .consume (.array elements) _ _ =>
    ((elements.mapM (validateScope options)).toOption.getD []).map RequestScope.key
  | .consume _ _ _ => []

/-- The instant of a call. -/
def instant? : Call → Option Nat
  | .record _ nowMs | .consume _ nowMs _ => nowMs.safeNat?

/-- The identity of a call, as it goes into the ledger. -/
def digest (requestDigest : String → String) : Call → Option String
  | .record _ _ => none
  | .consume _ _ requestId => digestOf requestDigest requestId

end Call

/-- All keys are among those of `room`, which fit under the cap. -/
structure Roomy (options : RateLimitOptions) (room : List String) (file : Option String) : Prop where
  fits : room.length ≤ options.maxKeys
  keys : ∀ k c, c ∈ chargesOf (ledgerOf options file) k → k ∈ room

theorem size_le_of_keys {room : List String} (h : LedgerOk ledger)
    (hkeys : ∀ k c, c ∈ chargesOf ledger k → k ∈ room) : ledger.size ≤ room.length := by
  rw [Map.size, ← length_map Prod.fst]
  refine (subperm_of_subset (Map.nodup _) fun k hk => ?_).length_le
  obtain ⟨⟨k', charges⟩, hmem, rfl⟩ := mem_map.mp hk
  have hsome : (ledger.get? k').isSome := by rw [Map.mem_entries_iff.mp hmem]; rfl
  obtain ⟨c, hc⟩ := h.isSome_iff.mp hsome
  exact hkeys k' c hc

/-! ## One commit -/

section Commit

variable {room : List String} {file : Option String}

/-- The charges after a commit. -/
def Charged (options : RateLimitOptions) (ledger ledger' : Ledger) (keys : List String) (now : Nat)
    (digest : Option String) : Prop :=
  ∀ k c, c ∈ chargesOf ledger' k ↔ (c ∈ chargesOf ledger k ∨ k ∈ keys ∧ c = ⟨now, digest⟩) ∧
    isKept now options.retentionMs options.idempotencyRetentionMs c = true

/-- A charge is above both horizons at its own instant. -/
theorem isKept_self {now : Nat} (hnow : now ≤ maxSafe) (digest : Option String) :
    isKept now options.retentionMs options.idempotencyRetentionMs ⟨now, digest⟩ = true := by
  have hlt := hnow.trans_lt maxSafe_lt
  have hpos := options.retentionMs_pos
  have hle := options.retentionMs_le
  unfold isKept
  split
  · exact decide_eq_true ((minus_lt_iff hlt).mpr (by omega))
  · exact decide_eq_true ((minus_lt_iff hlt).mpr (by omega))

theorem charged_pruneLedger {ledger ledger' : Ledger} {keys : List String} {now : Nat} {digest : Option String}
    (h : ∀ k c, c ∈ chargesOf ledger' k ↔ c ∈ chargesOf ledger k ∨ k ∈ keys ∧ c = ⟨now, digest⟩) :
    Charged options ledger (pruneLedger ledger' now options.retentionMs options.idempotencyRetentionMs) keys now
      digest := by
  intro k c
  rw [chargesOf_pruneLedger, mem_filter, h]

theorem consume_charged (hdigest : ∀ s, isDigest (requestDigest s) = true) (hroom : Roomy options room file)
    {scopes : Value} {nowMs : Number} {requestId : Option String} {outcome : AtomicOutcome} {ledger' : Ledger}
    (hkeys : ∀ k ∈ (Call.consume scopes nowMs requestId).keys options, k ∈ room)
    (h : consumeScopesAtomically options requestDigest file scopes nowMs requestId =
      .ok (outcome, some ledger')) :
    ∃ now, nowMs.safeNat? = some now ∧ outcome = .committed ∧
      Charged options (ledgerOf options file) ledger' ((Call.consume scopes nowMs requestId).keys options) now
        (digestOf requestDigest requestId) ∧
      ∀ d ∈ digestOf requestDigest requestId,
        ∀ k ∈ (Call.consume scopes nowMs requestId).keys options,
          carries d (chargesOf (ledgerOf options file) k) = false := by
  rcases consume_cases h with ⟨reason, heq⟩ | ⟨now, elements, validated, loaded, haccepted, heq⟩
  · cases heq
  · have hcall : (Call.consume scopes nowMs requestId).keys options = validated.map RequestScope.key := by
      rw [haccepted.scopes_eq, Call.keys, haccepted.validated_eq]
      rfl
    have hledger := ledgerOf_of_loaded haccepted.loaded_eq
    have hconsumed := haccepted.consumed hdigest requestId
    rw [← heq, ← hledger] at hconsumed
    rw [hcall] at hkeys ⊢
    refine ⟨now, haccepted.now_eq, ?_⟩
    generalize hgen : ledgerOf options file = ledger at *
    have hok : LedgerOk ledger := hgen ▸ ledgerOf_ok file
    cases hconsumed with
    | saved hfresh hallowed hsize =>
      obtain ⟨hinserted, hmem, -⟩ := @insertScopes_spec _ (haccepted.chargeOk hdigest requestId) _
        haccepted.keys (ledger, false) hok
      have hfits : (insertCharges ledger validated ⟨now, digestOf requestDigest requestId⟩).1.size ≤
          options.maxKeys := by
        refine (size_le_of_keys hinserted fun k c hc => ?_).trans hroom.fits
        rcases (hmem k c).mp hc with ⟨hk, -⟩ | hc
        · exact hkeys k hk
        · exact hroom.keys k c (hgen ▸ hc)
      rw [evictToCap_of_le hfits]
      refine ⟨rfl, charged_pruneLedger fun k c => (hmem k c).trans or_comm, fun d hd k hk => ?_⟩
      obtain ⟨s, hs, rfl⟩ := mem_map.mp hk
      exact hfresh d hd s hs

theorem record_charged (hroom : Roomy options room file) {key : String} {nowMs : Number} {ledger' : Ledger}
    (hkey : key ∈ room) (h : record options file key nowMs = .ok (some ledger')) :
    ∃ now, nowMs.safeNat? = some now ∧ Charged options (ledgerOf options file) ledger' [key] now none := by
  unfold record at h
  split at h
  · cases h
  · next hkeyOk =>
    rw [Bool.not_eq_false] at hkeyOk
    split at h
    · cases h
    · next now hnow =>
      have hsafe := Number.safeNat?_le hnow
      have hcharge : ChargeOk ⟨now, none⟩ := ⟨hsafe, by simp⟩
      obtain ⟨loaded, hloaded, h⟩ := Except.of_bind_ok h
      have hledger := ledgerOf_of_loaded hloaded
      refine ⟨now, hnow, ?_⟩
      generalize hgen : ledgerOf options file = ledger at *
      have hok : LedgerOk ledger := hgen ▸ ledgerOf_ok file
      cases loaded with
      | none =>
        cases h
        obtain rfl : ledger = .empty := hledger
        intro k c
        rw [charges_set]
        by_cases hk : k = key
        · have hkept := @isKept_self options now hsafe none
          simp only [hk, ↓reduceIte, mem_singleton]
          constructor
          · rintro rfl
            exact ⟨.inr ⟨trivial, rfl⟩, hkept⟩
          · rintro ⟨hc | ⟨-, rfl⟩, -⟩
            · cases hc
            · rfl
        · have hnone : chargesOf (.empty : Ledger) k = [] := rfl
          simp [hk, hnone]
      | some current =>
        obtain rfl : ledger = current := hledger
        dsimp only at h
        split at h
        · next hmissing =>
          cases h
          have hempty : chargesOf ledger key = [] := by rw [chargesOf, hmissing]; rfl
          have hmem : ∀ k c, c ∈ chargesOf (ledger.set key [⟨now, none⟩]) k ↔
              c ∈ chargesOf ledger k ∨ k ∈ [key] ∧ c = ⟨now, none⟩ := by
            intro k c
            rw [charges_set]
            by_cases hk : k = key
            · subst hk
              simp [hempty]
            · simp [hk]
          have hfits : (ledger.set key [⟨now, none⟩]).size ≤ options.maxKeys := by
            refine (size_le_of_keys (hok.set hkeyOk (chargesOk_singleton hcharge)) fun k c hc => ?_).trans
              hroom.fits
            rcases (hmem k c).mp hc with hc | ⟨hk, -⟩
            · exact hroom.keys k c (hgen ▸ hc)
            · rwa [mem_singleton.mp hk]
          rw [evictToCap_of_le hfits]
          exact charged_pruneLedger hmem
        · next existing hexisting =>
          split at h
          · cases h
          · next charges hcharges =>
            cases h
            have hsame : chargesOf ledger key = existing := by rw [chargesOf, hexisting]; rfl
            refine charged_pruneLedger fun k c => ?_
            rw [charges_set]
            by_cases hk : k = key
            · subst hk
              rw [if_pos rfl, (insertCharge_some (hok _ _ hexisting).2.sorted hcharges).2, hsame]
              simp [or_comm]
            · simp [hk]

/-- What a call that saves does to the charges. -/
theorem saved_spec (hdigest : ∀ s, isDigest (requestDigest s) = true) (hroom : Roomy options room file)
    {call : Call} {ledger' : Ledger} (hkeys : ∀ k ∈ call.keys options, k ∈ room)
    (h : saved options requestDigest file call = some ledger') :
    ∃ now, call.instant? = some now ∧
      Charged options (ledgerOf options file) ledger' (call.keys options) now (call.digest requestDigest) ∧
      ∀ d ∈ call.digest requestDigest, ∀ k ∈ call.keys options,
        carries d (chargesOf (ledgerOf options file) k) = false := by
  cases call with
  | record key nowMs =>
    rw [saved, Option.join_eq_some_iff] at h
    obtain ⟨now, hnow, hcharged⟩ := record_charged hroom (hkeys key mem_cons_self) (Except.of_toOption h)
    exact ⟨now, hnow, hcharged, by simp [Call.digest]⟩
  | consume scopes nowMs requestId =>
    obtain ⟨⟨outcome, saved'⟩, hanswer, heq⟩ := Option.bind_eq_some_iff.mp h
    obtain rfl : saved' = some ledger' := heq
    obtain ⟨now, hnow, -, hcharged, hfresh⟩ := consume_charged hdigest hroom hkeys (Except.of_toOption hanswer)
    exact ⟨now, hnow, hcharged, hfresh⟩

/-! ## One attempt -/

/-- The attempt saves a ledger. -/
def Commits (options : RateLimitOptions) (requestDigest : String → String) (file : Option String)
    (a : Attempt) : Prop :=
  a.lands = true ∧ (saved options requestDigest file a.call).isSome

/-- What an attempt does: nothing, or a commit. -/
inductive Landed (options : RateLimitOptions) (requestDigest : String → String) (file : Option String)
    (a : Attempt) (file' : Option String) : Prop where
  | unchanged (h : file' = file)
  | committed (hcommits : Commits options requestDigest file a) (now : Nat)
      (hnow : a.call.instant? = some now)
      (hcharged : Charged options (ledgerOf options file) (ledgerOf options file') (a.call.keys options) now
        (a.call.digest requestDigest))

theorem landed_step (hdigest : ∀ s, isDigest (requestDigest s) = true) (hroom : Roomy options room file)
    {a : Attempt} (hkeys : ∀ k ∈ a.call.keys options, k ∈ room) :
    Landed options requestDigest file a (step options requestDigest file a) := by
  unfold step
  cases hsaved : saved options requestDigest file a.call with
  | none => exact .unchanged rfl
  | some ledger' =>
    dsimp only
    split
    · next hlands =>
      obtain ⟨now, hnow, hcharged, -⟩ := saved_spec hdigest hroom hkeys hsaved
      refine .committed ⟨hlands, by rw [hsaved]; rfl⟩ now hnow fun k c => ?_
      rw [chargesOf_serializeLedger (saved_fits hdigest hsaved)]
      exact hcharged k c
    · exact .unchanged rfl

variable {a : Attempt}

theorem step_of_saved (hlands : a.lands = true) {ledger : Ledger}
    (h : saved options requestDigest file a.call = some ledger) :
    step options requestDigest file a = some (serializeLedger ledger) := by
  rw [step, h, hlands]
  rfl

/-- The file that a commit leaves is accepted, whatever the file before. -/
theorem Commits.readable (hdigest : ∀ s, isDigest (requestDigest s) = true) {a : Attempt}
    (h : Commits options requestDigest file a) : Readable options (step options requestDigest file a) := by
  obtain ⟨hlands, hsaved⟩ := h
  obtain ⟨ledger, hledger⟩ := Option.isSome_iff_exists.mp hsaved
  obtain ⟨hok, hsize⟩ := saved_fits hdigest hledger
  obtain ⟨l, hl, -⟩ := parseLedger_serializeLedger hok hsize
  intro text htext
  rw [step_of_saved hlands hledger] at htext
  obtain rfl : serializeLedger ledger = text := Option.some.inj htext
  exact ⟨l, hl⟩

theorem Landed.roomy {file' : Option String} (hroom : Roomy options room file)
    (hkeys : ∀ k ∈ a.call.keys options, k ∈ room) (h : Landed options requestDigest file a file') :
    Roomy options room file' := by
  cases h with
  | unchanged h => exact h ▸ hroom
  | committed _ now _ hcharged =>
    refine ⟨hroom.fits, fun k c hc => ?_⟩
    rcases ((hcharged k c).mp hc).1 with hc | ⟨hk, -⟩
    · exact hroom.keys k c hc
    · exact hkeys k hk

end Commit

/-! ## Runs -/

section Runs

variable {room : List String} {file : Option String} {attempts : List Attempt}

theorem roomy_run (hdigest : ∀ s, isDigest (requestDigest s) = true) (hroom : Roomy options room file)
    (hkeys : ∀ a ∈ attempts, ∀ k ∈ a.call.keys options, k ∈ room) :
    Roomy options room (Machine.run (step options requestDigest) file attempts) := by
  induction attempts generalizing file with
  | nil => exact hroom
  | cons a attempts ih =>
    have ha := hkeys a mem_cons_self
    exact ih ((landed_step hdigest hroom ha).roomy hroom ha) fun b hb => hkeys b (mem_cons_of_mem _ hb)

/-- The attempt does not commit at `horizon` or later. -/
def CommitsBefore (options : RateLimitOptions) (requestDigest : String → String) (horizon : Nat)
    (file : Option String) (a : Attempt) : Prop :=
  Commits options requestDigest file a → ∀ now ∈ a.call.instant?, now < horizon

/-- A charge with an identity stays until a commit at its horizon. -/
theorem kept_run (hdigest : ∀ s, isDigest (requestDigest s) = true) (hroom : Roomy options room file)
    (hkeys : ∀ a ∈ attempts, ∀ k ∈ a.call.keys options, k ∈ room) {k d : String} {t : Nat} (ht : t ≤ maxSafe)
    (hbefore : Machine.Along (step options requestDigest)
      (CommitsBefore options requestDigest (t + options.idempotencyRetentionMs)) file attempts)
    (h : ⟨t, some d⟩ ∈ chargesOf (ledgerOf options file) k) :
    ⟨t, some d⟩ ∈ chargesOf (ledgerOf options (Machine.run (step options requestDigest) file attempts)) k := by
  induction attempts generalizing file with
  | nil => exact h
  | cons a attempts ih =>
    have ha := hkeys a mem_cons_self
    have hstep := landed_step hdigest hroom ha
    refine ih (hstep.roomy hroom ha) (fun b hb => hkeys b (mem_cons_of_mem _ hb)) hbefore.2 ?_
    cases hstep with
    | unchanged hsame =>
      rw [hsame]
      exact h
    | committed hcommits now hnow hcharged =>
      have hlt := hbefore.1 hcommits now hnow
      refine (hcharged k _).mpr ⟨.inl h, ?_⟩
      exact decide_eq_true ((minus_lt_iff (ht.trans_lt maxSafe_lt)).mpr hlt)

/-- The attempt commits a charge of the identity with this digest under the key. -/
def Charges (options : RateLimitOptions) (requestDigest : String → String) (k d : String) (file : Option String)
    (a : Attempt) : Prop :=
  Commits options requestDigest file a ∧ k ∈ a.call.keys options ∧ a.call.digest requestDigest = some d

/-- A charge with an identity was there at the start, or an attempt on the way committed it. -/
theorem origin_run (hdigest : ∀ s, isDigest (requestDigest s) = true) (hroom : Roomy options room file)
    (hkeys : ∀ a ∈ attempts, ∀ k ∈ a.call.keys options, k ∈ room) {k d : String}
    (h : carries d (chargesOf (ledgerOf options (Machine.run (step options requestDigest) file attempts)) k)
      = true) :
    carries d (chargesOf (ledgerOf options file) k) = true ∨
      ∃ before a after, attempts = before ++ a :: after ∧
        Charges options requestDigest k d (Machine.run (step options requestDigest) file before) a := by
  induction attempts generalizing file with
  | nil => exact .inl h
  | cons a attempts ih =>
    have ha := hkeys a mem_cons_self
    have hstep := landed_step hdigest hroom ha
    rcases ih (hstep.roomy hroom ha) (fun b hb => hkeys b (mem_cons_of_mem _ hb)) h with
      hthere | ⟨before, b, after, rfl, hb⟩
    · cases hstep with
      | unchanged hsame => exact .inl (hsame ▸ hthere)
      | committed hcommits now hnow hcharged =>
        obtain ⟨c, hc, hid⟩ := carries_iff.mp hthere
        rcases ((hcharged k c).mp hc).1 with hc | ⟨hk, rfl⟩
        · exact .inl (carries_iff.mpr ⟨c, hc, hid⟩)
        · exact .inr ⟨[], a, attempts, rfl, hcommits, hk, hid⟩
    · exact .inr ⟨a :: before, b, after, rfl, hb⟩

/-! ## Requests -/

/-- What an atomic consume answers, and the ledger that it saves; `none` for another call or a throw. -/
def consumed (options : RateLimitOptions) (requestDigest : String → String) (file : Option String) :
    Call → Option (AtomicOutcome × Option Ledger)
  | .consume scopes nowMs requestId =>
    (consumeScopesAtomically options requestDigest file scopes nowMs requestId).toOption
  | .record _ _ => none

/-- The attempt is a request with the identity `r` for the scopes `elements` at `now`. -/
def IsRequest (a : Attempt) (r : String) (elements : List Value) (now : Nat) : Prop :=
  r ≠ "" ∧ ∃ nowMs, a.call = .consume (.array elements) nowMs (some r) ∧ nowMs.safeNat? = some now

/-- The identities of the attempts have different digests. -/
def Separates (requestDigest : String → String) (attempts : List Attempt) : Prop :=
  ∀ a ∈ attempts, ∀ b ∈ attempts, ∀ r r', (∃ elements now, IsRequest a r elements now) →
    (∃ elements now, IsRequest b r' elements now) → requestDigest r = requestDigest r' → r = r'

theorem IsRequest.digest {a : Attempt} {r : String} {elements : List Value} {now : Nat}
    (h : IsRequest a r elements now) : a.call.digest requestDigest = some (requestDigest r) := by
  obtain ⟨hne, nowMs, hcall, -⟩ := h
  rw [hcall, Call.digest, digestOf, Option.filter_some, if_pos (by simpa using hne)]
  rfl

variable {a : Attempt} {r : String} {elements : List Value} {now : Nat}

theorem IsRequest.instant
    (h : IsRequest a r elements now) : a.call.instant? = some now := by
  obtain ⟨-, nowMs, hcall, hnow⟩ := h
  rw [hcall]
  exact hnow

/-- A commit with an identity is a request with one. -/
theorem isRequest_of_charges {k d : String} (h : Charges options requestDigest k d file a) :
    ∃ r elements now, IsRequest a r elements now ∧ requestDigest r = d := by
  obtain ⟨⟨-, hsaved⟩, hk, hd⟩ := h
  cases hcall : a.call with
  | record key nowMs => rw [hcall] at hd; cases hd
  | consume scopes nowMs requestId =>
    rw [hcall] at hd hk hsaved
    obtain ⟨r, hr, rfl⟩ := Option.map_eq_some_iff.mp hd
    obtain ⟨rfl, hne⟩ := Option.filter_eq_some_iff.mp hr
    obtain ⟨ledger, hledger⟩ := Option.isSome_iff_exists.mp hsaved
    obtain ⟨⟨outcome, saved'⟩, hanswer, heq⟩ := Option.bind_eq_some_iff.mp hledger
    obtain rfl : saved' = some ledger := heq
    rcases consume_cases (Except.of_toOption hanswer) with ⟨reason, hrefused⟩ | ⟨now, elements, _, _, h, -⟩
    · cases hrefused
    · exact ⟨r, elements, now, ⟨by simpa using hne, nowMs, by rw [hcall, h.scopes_eq], h.now_eq⟩, rfl⟩

theorem step_of_none (h : saved options requestDigest file a.call = none) :
    step options requestDigest file a = file := by
  rw [step, h]

/-- A request that finds all its scopes charged with its identity is allowed and saves nothing. -/
theorem consumed_of_carries
    (hr : IsRequest a r elements now) (hfile : Readable options file)
    (helements : ∀ v ∈ elements, ∃ s, validateScope options v = .ok s ∧
      carries (requestDigest r) (chargesOf (ledgerOf options file) s.key) = true) :
    consumed options requestDigest file a.call = some (.committed, none) := by
  obtain ⟨hne, nowMs, hcall, hnow⟩ := hr
  obtain ⟨validated, hvalidated⟩ := Except.exists_mapM_ok fun v hv => (helements v hv).imp fun s hs => hs.1
  obtain ⟨loaded, hloaded⟩ : ∃ loaded, loadLedgerUnlocked options file = .ok loaded := by
    cases file with
    | none => exact ⟨none, rfl⟩
    | some text =>
      obtain ⟨ledger, hledger⟩ := hfile text rfl
      exact ⟨some ledger, by rw [loadLedgerUnlocked, hledger]; rfl⟩
  have haccepted : Accepted options file (.array elements) nowMs now elements validated loaded :=
    ⟨hnow, rfl, hvalidated, hloaded⟩
  have hdigest : digestOf requestDigest (some r) = some (requestDigest r) := by
    rw [digestOf, Option.filter_some, if_pos (by simpa using hne)]
    rfl
  have hcharged : (validated.countP fun s => ((loaded.getD .empty).get? s.key).any (carries (requestDigest r))) =
      validated.length := by
    rw [countP_eq_length]
    intro s hs
    obtain ⟨v, hv, hvs⟩ := ((Except.mapM_spec hvalidated).2 s).mp hs
    obtain ⟨s', hs', hcarries⟩ := helements v hv
    obtain rfl : s = s' := Except.ok.inj (hvs.symm.trans hs')
    rwa [any_carries, ← ledgerOf_of_loaded hloaded]
  rw [hcall, consumed, consume_accepted haccepted, hdigest, consumeLocked]
  rw [if_pos ⟨by simp, hcharged⟩]
  rfl

/-- A request that is allowed without a commit is charged already. -/
theorem carries_of_replayed (hdigest : ∀ s, isDigest (requestDigest s) = true) {b : Attempt} {r : String}
    {elements : List Value} {now : Nat} (hb : IsRequest b r elements now)
    (h : consumed options requestDigest file b.call = some (.committed, none)) :
    ∀ k ∈ b.call.keys options, carries (requestDigest r) (chargesOf (ledgerOf options file) k) = true := by
  have hid := @IsRequest.digest requestDigest _ _ _ _ hb
  obtain ⟨-, nowMs, hcall, -⟩ := hb
  rw [hcall] at h hid ⊢
  rcases consume_cases (Except.of_toOption h) with ⟨reason, heq⟩ | ⟨now', elements', validated, loaded, hacc, heq⟩
  · cases heq
  · obtain rfl : elements = elements' := Value.array.inj hacc.scopes_eq
    have hconsumed := hacc.consumed hdigest (some r)
    rw [← heq] at hconsumed
    intro k hk
    rw [Call.keys, hacc.validated_eq] at hk
    obtain ⟨s, hs, rfl⟩ := mem_map.mp hk
    rw [ledgerOf_of_loaded hacc.loaded_eq]
    cases hconsumed with
    | replayed d hd hcarries =>
      obtain rfl : d = requestDigest r := Option.some.inj (hd.symm.trans hid)
      exact hcarries s hs
    | present hd => exact absurd (hid.symm.trans hd) (by simp)

/-- A denial saves nothing. -/
theorem denied_saves_nothing (hdigest : ∀ s, isDigest (requestDigest s) = true) {scopes : Value}
    {nowMs : Number} {requestId : Option String} {reason : Option String} {saved' : Option Ledger}
    (h : consumeScopesAtomically options requestDigest file scopes nowMs requestId =
      .ok (.denied reason, saved')) : saved' = none := by
  rcases consume_cases h with ⟨reason', heq⟩ | ⟨now, elements, validated, loaded, hacc, heq⟩
  · cases heq
    rfl
  · have hconsumed := hacc.consumed hdigest requestId
    rw [← heq] at hconsumed
    cases hconsumed
    rfl

/-- The scopes of a request that committed are charged with its identity. -/
theorem charged_of_commits (hdigest : ∀ s, isDigest (requestDigest s) = true)
    (hroom : Roomy options room file) {a : Attempt} (hkeys : ∀ k ∈ a.call.keys options, k ∈ room) {r : String}
    {elements : List Value} {now : Nat} (hr : IsRequest a r elements now)
    (hcommits : Commits options requestDigest file a) :
    ∀ v ∈ elements, ∃ s, validateScope options v = .ok s ∧
      ⟨now, some (requestDigest r)⟩ ∈ chargesOf (ledgerOf options (step options requestDigest file a)) s.key := by
  obtain ⟨hlands, hsaved⟩ := hcommits
  obtain ⟨ledger, hledger⟩ := Option.isSome_iff_exists.mp hsaved
  obtain ⟨now', hnow', hcharged, -⟩ := saved_spec hdigest hroom hkeys hledger
  obtain rfl : now = now' := Option.some.inj (hr.instant.symm.trans hnow')
  obtain ⟨-, nowMs, hcall, hnow⟩ := id hr
  have hstep := step_of_saved hlands hledger
  rw [hcall] at hledger
  obtain ⟨⟨outcome, saved'⟩, hanswer, heq⟩ := Option.bind_eq_some_iff.mp hledger
  obtain rfl : saved' = some ledger := heq
  rcases consume_cases (Except.of_toOption hanswer) with ⟨reason, hrefused⟩ | ⟨_, elements', validated, _, h, -⟩
  · cases hrefused
  · obtain rfl : elements = elements' := Value.array.inj h.scopes_eq
    intro v hv
    obtain ⟨s, hs⟩ := (Except.mapM_spec h.validated_eq).1 v hv
    refine ⟨s, hs, ?_⟩
    have hkey : s.key ∈ a.call.keys options := by
      rw [hcall, Call.keys, h.validated_eq]
      exact mem_map_of_mem (((Except.mapM_spec h.validated_eq).2 s).mpr ⟨v, hv, hs⟩)
    rw [hstep, chargesOf_serializeLedger (saved_fits hdigest (hcall ▸ hledger))]
    refine (hcharged _ _).mpr ⟨.inr ⟨hkey, ?_⟩, isKept_self (Number.safeNat?_le hnow) _⟩
    rw [hr.digest]

end Runs

/-- Along every run whose keys fit under the cap:

- a request that committed is allowed and charges nothing when it comes again, in every state up to a commit
  at its horizon;
- a request that is allowed adds on each of its scopes a charge that was not there, and drops only charges
  below their horizons, or it was charged on each of its scopes before, by a request of the same identity or at
  the start;
- a request that is denied leaves the file as it is. -/
theorem charged_once (options : RateLimitOptions) (requestDigest : String → String)
    (hdigest : ∀ s, isDigest (requestDigest s) = true) {room : List String} {file : Option String}
    (hroom : Roomy options room file) {attempts : List Attempt}
    (hkeys : ∀ a ∈ attempts, ∀ k ∈ a.call.keys options, k ∈ room)
    (hseparates : Separates requestDigest attempts) :
    (∀ before a between b rest r elements elements' now now',
      attempts = before ++ a :: (between ++ b :: rest) →
      IsRequest a r elements now →
      Commits options requestDigest (Machine.run (step options requestDigest) file before) a →
      Machine.Along (step options requestDigest)
        (CommitsBefore options requestDigest (now + options.idempotencyRetentionMs))
        (Machine.run (step options requestDigest) file (before ++ [a])) between →
      IsRequest b r elements' now' → (∀ v, v ∈ elements' ↔ v ∈ elements) →
      consumed options requestDigest
        (Machine.run (step options requestDigest) file (before ++ a :: between)) b.call =
          some (.committed, none)) ∧
    (∀ before b rest r elements now saved', attempts = before ++ b :: rest → IsRequest b r elements now →
      consumed options requestDigest (Machine.run (step options requestDigest) file before) b.call =
        some (.committed, saved') →
      match saved' with
      | some ledger =>
        (∀ k ∈ b.call.keys options,
          carries (requestDigest r)
            (chargesOf (ledgerOf options (Machine.run (step options requestDigest) file before)) k) = false ∧
          ⟨now, some (requestDigest r)⟩ ∈ chargesOf ledger k) ∧
        ∀ k, ∀ c ∈ chargesOf (ledgerOf options (Machine.run (step options requestDigest) file before)) k,
          isKept now options.retentionMs options.idempotencyRetentionMs c = true → c ∈ chargesOf ledger k
      | none => ∀ k ∈ b.call.keys options,
        carries (requestDigest r) (chargesOf (ledgerOf options file) k) = true ∨
          ∃ first a last, before = first ++ a :: last ∧
            Commits options requestDigest (Machine.run (step options requestDigest) file first) a ∧
            k ∈ a.call.keys options ∧ ∃ elements' now', IsRequest a r elements' now') ∧
    ∀ file' a reason saved', consumed options requestDigest file' a.call = some (.denied reason, saved') →
      step options requestDigest file' a = file' := by
  refine ⟨?_, ?_, ?_⟩
  · rintro before a between b rest r elements elements' now now' rfl ha hcommits hbetween hb hsame
    have hbefore : ∀ c ∈ before, ∀ k ∈ c.call.keys options, k ∈ room :=
      fun c hc => hkeys c (mem_append_left _ hc)
    have ha' : ∀ k ∈ a.call.keys options, k ∈ room := hkeys a (by simp)
    have hmiddle : ∀ c ∈ between, ∀ k ∈ c.call.keys options, k ∈ room := fun c hc => hkeys c (by simp [hc])
    have hroom' := roomy_run hdigest hroom hbefore
    have hcharged := charged_of_commits hdigest hroom' ha' ha hcommits
    have hroom'' := (landed_step hdigest hroom' ha').roomy hroom' ha'
    rw [Machine.run_append, Machine.run_cons, Machine.run_nil] at hbetween
    rw [Machine.run_append, Machine.run_cons]
    have hsafe : now ≤ maxSafe := by
      obtain ⟨-, nowMs, -, hnow⟩ := ha
      exact Number.safeNat?_le hnow
    refine consumed_of_carries hb (readable_run hdigest (hcommits.readable hdigest) between) fun v hv => ?_
    obtain ⟨s, hs, hmem⟩ := hcharged v ((hsame v).mp hv)
    exact ⟨s, hs, carries_iff.mpr ⟨_, kept_run hdigest hroom'' hmiddle hsafe hbetween hmem, rfl⟩⟩
  · rintro before b rest r elements now saved' rfl hb hanswer
    have hbefore : ∀ c ∈ before, ∀ k ∈ c.call.keys options, k ∈ room :=
      fun c hc => hkeys c (mem_append_left _ hc)
    have hb' : ∀ k ∈ b.call.keys options, k ∈ room := hkeys b (by simp)
    have hroom' := roomy_run hdigest hroom hbefore
    obtain ⟨-, nowMs, hcall, hnow⟩ := id hb
    cases saved' with
    | some ledger =>
      have hsaved : saved options requestDigest (Machine.run (step options requestDigest) file before) b.call =
          some ledger := by
        rw [hcall] at hanswer ⊢
        rw [saved, Option.bind_eq_some_iff]
        exact ⟨_, hanswer, rfl⟩
      obtain ⟨now', hnow', hcharged, hfresh⟩ := saved_spec hdigest hroom' hb' hsaved
      obtain rfl : now = now' := Option.some.inj (hb.instant.symm.trans hnow')
      rw [hb.digest] at hcharged hfresh
      refine ⟨fun k hk => ⟨hfresh _ rfl k hk, ?_⟩, fun k c hc hkept => (hcharged k c).mpr ⟨.inl hc, hkept⟩⟩
      exact (hcharged k _).mpr ⟨.inr ⟨hk, rfl⟩, isKept_self (Number.safeNat?_le hnow) _⟩
    | none =>
      intro k hk
      rcases origin_run hdigest hroom hbefore (carries_of_replayed hdigest hb hanswer k hk) with
        hstart | ⟨first, a, last, rfl, hcharges⟩
      · exact .inl hstart
      · obtain ⟨r', elements', now', ha, heq⟩ := isRequest_of_charges hcharges
        obtain rfl : r = r' :=
          hseparates b (by simp) a (by simp) r r' ⟨_, _, hb⟩ ⟨_, _, ha⟩ heq.symm
        exact .inr ⟨first, a, last, rfl, hcharges.1, hcharges.2.1, _, _, ha⟩
  · intro file' a reason saved' hanswer
    apply step_of_none
    cases hcall : a.call with
    | record key nowMs => rw [hcall] at hanswer; cases hanswer
    | consume scopes nowMs requestId =>
      rw [hcall] at hanswer
      have hnone : saved' = none := denied_saves_nothing hdigest (Except.of_toOption hanswer)
      rw [saved]
      change (consumeScopesAtomically options requestDigest file' scopes nowMs requestId).toOption = _ at hanswer
      rw [hanswer, hnone]
      rfl

/-! ## An example -/

theorem isRequest_question {a : Attempt} (ha : a ∈ [question 1700000060000, question 1700000960000]) {r : String}
    {elements : List Value} {now : Nat} (h : IsRequest a r elements now) :
    r = "github:misospace/pr-reviewer-action#1:101" := by
  obtain ⟨-, nowMs, hcall, -⟩ := h
  rcases mem_pair.mp ha with rfl | rfl
  · exact (Option.some.inj (Call.consume.inj hcall).2.2).symm
  · exact (Option.some.inj (Call.consume.inj hcall).2.2).symm

/-- The question comes again after its windows, and is not charged again. -/
theorem charged_once_question :
    consumed defaultOptions digest101
      (Machine.run (step defaultOptions digest101) none [question 1700000060000])
      (question 1700000960000).call = some (.committed, none) := by
  have hroom : Roomy defaultOptions ["pr:github:misospace/pr-reviewer-action#1",
      "actor:github:misospace/pr-reviewer-action#1:octocat"] none :=
    ⟨by decide, fun k c hc => nomatch hc⟩
  have hkeys : ∀ a ∈ [question 1700000060000, question 1700000960000], ∀ k ∈ a.call.keys defaultOptions,
      k ∈ ["pr:github:misospace/pr-reviewer-action#1", "actor:github:misospace/pr-reviewer-action#1:octocat"] := by
    decide +kernel
  have hseparates : Separates digest101 [question 1700000060000, question 1700000960000] := by
    rintro a ha b hb r r' ⟨_, _, hr⟩ ⟨_, _, hr'⟩ -
    rw [isRequest_question ha hr, isRequest_question hb hr']
  have hcommits : Commits defaultOptions digest101 none (question 1700000060000) := ⟨rfl, by decide +kernel⟩
  refine (charged_once defaultOptions digest101 isDigest_digest101 hroom hkeys hseparates).1 []
    (question 1700000060000) [] (question 1700000960000) [] _ _ _ 1700000060000 1700000960000 rfl
    ⟨by decide, _, rfl, by decide +kernel⟩ hcommits trivial ⟨by decide, _, rfl, by decide +kernel⟩ fun v => Iff.rfl

end PrReviewer.Followup
