import Mathlib.Data.List.Dedup
import PrReviewer.Followup.Replay

/-!
# The sliding-window budget

A request is checked at the instant at which it commits, and counts what is charged in the window up to it
(`Commits.allowed`). The instants of a run do not decrease, so no window that ends later or earlier holds more
than the one at the last commit (`Within.snoc`), and a charge in a window of at most the retention is above the
horizons (`isKept_of_inWindow`): pruning drops nothing that is counted, now or later.

`window_bound` counts the identities that a run charges, whatever `record` and requests without an identity do
in between.
-/

open Js List

namespace PrReviewer.Followup

variable {options : RateLimitOptions} {requestDigest : String → String}

/-! ## Windows -/

section Within

variable {start : Nat → ℚ} {limit : Nat} {instants : List Nat} {now : Nat}

/-- How many of the instants are in the window that ends at `x`. -/
def countWithin (start : Nat → ℚ) (instants : List Nat) (x : Nat) : Nat :=
  instants.countP fun t : Nat => decide (start x < t) && decide (t ≤ x)

/-- No window holds more than `limit` of the instants. -/
def Within (start : Nat → ℚ) (limit : Nat) (instants : List Nat) : Prop :=
  ∀ x, countWithin start instants x ≤ limit

theorem countWithin_mono (hstart : Monotone start) (hlast : ∀ t ∈ instants, t ≤ now) {x : Nat} (hx : now ≤ x) :
    countWithin start instants x ≤ countWithin start instants now := by
  refine countP_mono_left fun t ht hin => ?_
  simp only [Bool.and_eq_true, decide_eq_true_eq] at hin ⊢
  exact ⟨(hstart hx).trans_lt hin.1, hlast t ht⟩

/-- An instant after all others can be added where the window that ends there has room. -/
theorem Within.snoc (hstart : Monotone start) (h : Within start limit instants)
    (hlast : ∀ t ∈ instants, t ≤ now) (hroom : countWithin start instants now < limit) :
    Within start limit (instants ++ [now]) := by
  intro x
  rw [countWithin, countP_append]
  rcases lt_or_ge x now with hx | hx
  · have hout : [now].countP (fun t : Nat => decide (start x < t) && decide (t ≤ x)) = 0 := by
      simp [not_le.mpr hx]
    rw [hout, Nat.add_zero]
    exact h x
  · have hbefore := countWithin_mono hstart hlast hx
    have hone : [now].countP (fun t : Nat => decide (start x < t) && decide (t ≤ x)) ≤ 1 := countP_le_length
    unfold countWithin at hbefore hroom
    omega

end Within

/-! ## Windows and horizons -/

theorem isKept_mono {now now' : Nat} (h : now ≤ now') {c : LedgerEvent}
    (hc : isKept now' options.retentionMs options.idempotencyRetentionMs c = true) :
    isKept now options.retentionMs options.idempotencyRetentionMs c = true := by
  by_cases hid : c.id = none
  · rw [isKept, if_pos hid] at hc ⊢
    exact decide_eq_true ((minus_mono h _).trans_lt (of_decide_eq_true hc))
  · rw [isKept, if_neg hid] at hc ⊢
    exact decide_eq_true ((minus_mono h _).trans_lt (of_decide_eq_true hc))

/-- A charge in a window of at most the retention is above its horizon. -/
theorem isKept_of_inWindow {windowMs : ℚ} (hwindow : windowMs ≤ options.retentionMs) {now : Nat} {c : LedgerEvent}
    (hc : inWindow windowMs now c = true) :
    isKept now options.retentionMs options.idempotencyRetentionMs c = true := by
  have hretention : (options.retentionMs : ℚ) ≤ options.idempotencyRetentionMs := by
    exact_mod_cast options.retentionMs_le
  obtain ⟨hstart, -⟩ := Bool.and_eq_true_iff.mp hc
  have hlt := of_decide_eq_true hstart
  unfold isKept
  split
  · exact decide_eq_true ((minus_anti now hwindow).trans_lt hlt)
  · exact decide_eq_true ((minus_anti now (hwindow.trans hretention)).trans_lt hlt)

theorem countCharges_pruneLedger (ledger : Ledger) {now now' : Nat} (h : now ≤ now') {windowMs : ℚ}
    (hwindow : windowMs ≤ options.retentionMs) (k : String) :
    countCharges (pruneLedger ledger now options.retentionMs options.idempotencyRetentionMs) k windowMs now' =
      countCharges ledger k windowMs now' := by
  rw [countCharges, countCharges, chargesOf_pruneLedger, countP_filter]
  refine countP_congr fun c _ => ?_
  rw [Bool.and_eq_true]
  exact ⟨And.left, fun hin => ⟨hin, isKept_mono h (isKept_of_inWindow hwindow hin)⟩⟩

theorem loadLedgerUnlocked_serializeLedger {ledger : Ledger} (h : Fits options ledger) :
    loadLedgerUnlocked options (some (serializeLedger ledger)) =
      .ok (some (ledgerOf options (some (serializeLedger ledger)))) := by
  obtain ⟨l, hl, -⟩ := parseLedger_serializeLedger h.1 h.2
  have hloaded : loadLedgerUnlocked options (some (serializeLedger ledger)) = .ok (some l) := by
    rw [loadLedgerUnlocked, hl]
    rfl
  rw [ledgerOf_of_loaded hloaded]
  exact hloaded

/-- Pruning does not change an answer of `countInWindow` at its instant or later. -/
theorem countInWindow_pruneLedger {ledger : Ledger} (h : Fits options ledger) {now : Nat} (key : String)
    (windowMs : Number) {nowMs : Number} (hnow : ∀ now' ∈ nowMs.safeNat?, now ≤ now') :
    countInWindow options (some (serializeLedger
        (pruneLedger ledger now options.retentionMs options.idempotencyRetentionMs))) key windowMs nowMs =
      countInWindow options (some (serializeLedger ledger)) key windowMs nowMs := by
  have hcount : ∀ ledger, Fits options ledger → ∀ window now',
      countCharges (ledgerOf options (some (serializeLedger ledger))) key window now' =
        countCharges ledger key window now' := by
    intro ledger h window now'
    rw [countCharges, countCharges, chargesOf_serializeLedger h]
  unfold countInWindow
  rw [loadLedgerUnlocked_serializeLedger h, loadLedgerUnlocked_serializeLedger (h.pruneLedger now)]
  split
  · rfl
  · split
    · next window now' _ hnow' =>
      split
      · rfl
      · split
        · rfl
        · next hretention =>
          dsimp only
          rw [hcount _ h, hcount _ (h.pruneLedger now)]
          exact countCharges_pruneLedger ledger (hnow now' hnow') (not_lt.mp hretention) key
    · rfl

/-! ## One commit -/

/-- The validated scopes of a call; a `record` is not checked. -/
def Call.scopes (options : RateLimitOptions) : Call → List RequestScope
  | .consume (.array elements) _ _ => (elements.mapM (validateScope options)).toOption.getD []
  | _ => []

/-- The identity of a call; an empty one counts as missing. -/
def Call.identity : Call → Option String
  | .record _ _ => none
  | .consume _ _ requestId => requestId.filter (· ≠ "")

theorem Call.digest_eq (call : Call) : call.digest requestDigest = call.identity.map requestDigest := by
  cases call <;> rfl

instance (file : Option String) (a : Attempt) : Decidable (Commits options requestDigest file a) :=
  inferInstanceAs (Decidable (_ ∧ _))

section Commit

variable {room : List String} {file : Option String} {a : Attempt}

/-- A request that commits is below the limits of its scopes. -/
theorem Commits.allowed (hdigest : ∀ s, isDigest (requestDigest s) = true)
    (h : Commits options requestDigest file a) {now : Nat} (hnow : a.call.instant? = some now) :
    ∀ s ∈ a.call.scopes options, s.windowMs ≤ options.retentionMs ∧
      countCharges (ledgerOf options file) s.key s.windowMs now < s.limit := by
  obtain ⟨ledger, hledger⟩ := Option.isSome_iff_exists.mp h.2
  cases hcall : a.call with
  | record key nowMs => exact fun s hs => nomatch hs
  | consume scopes nowMs requestId =>
    rw [hcall] at hledger hnow
    obtain ⟨⟨outcome, saved'⟩, hanswer, heq⟩ := Option.bind_eq_some_iff.mp hledger
    obtain rfl : saved' = some ledger := heq
    rcases consume_cases (Except.of_toOption hanswer) with
      ⟨reason, hrefused⟩ | ⟨now', elements, validated, loaded, hacc, heq⟩
    · cases hrefused
    · obtain rfl : now = now' := Option.some.inj (hnow.symm.trans hacc.now_eq)
      have hconsumed := hacc.consumed hdigest requestId
      rw [← heq, ← ledgerOf_of_loaded hacc.loaded_eq] at hconsumed
      rw [hacc.scopes_eq, Call.scopes, hacc.validated_eq]
      cases hconsumed with
      | saved _ hallowed _ =>
        intro s hs
        obtain ⟨v, -, hv⟩ := ((Except.mapM_spec hacc.validated_eq).2 s).mp hs
        exact ⟨(validateScope_ok hv).2.2.1, hallowed s hs⟩

theorem step_of_not_commits (h : ¬Commits options requestDigest file a) :
    step options requestDigest file a = file := by
  unfold step
  cases hsaved : saved options requestDigest file a.call with
  | none => rfl
  | some ledger =>
    have hlands : ¬a.lands = true := fun hlands => h ⟨hlands, by rw [hsaved]; rfl⟩
    exact if_neg hlands

/-- What a commit does to the charges of the file. -/
theorem Commits.charged (hdigest : ∀ s, isDigest (requestDigest s) = true) (hroom : Roomy options room file)
    (hkeys : ∀ k ∈ a.call.keys options, k ∈ room) (h : Commits options requestDigest file a) :
    ∃ now, a.call.instant? = some now ∧
      Charged options (ledgerOf options file) (ledgerOf options (step options requestDigest file a))
        (a.call.keys options) now (a.call.digest requestDigest) ∧
      ∀ d ∈ a.call.digest requestDigest, ∀ k ∈ a.call.keys options,
        carries d (chargesOf (ledgerOf options file) k) = false := by
  obtain ⟨hlands, hsaved⟩ := h
  obtain ⟨ledger, hledger⟩ := Option.isSome_iff_exists.mp hsaved
  obtain ⟨now, hnow, hcharged, hfresh⟩ := saved_spec hdigest hroom hkeys hledger
  refine ⟨now, hnow, fun k c => ?_, hfresh⟩
  rw [step_of_saved hlands hledger, chargesOf_serializeLedger (saved_fits hdigest hledger)]
  exact hcharged k c

end Commit

/-! ## Runs -/

/-- The instant and the identity of an attempt that charges the scope `k`. -/
def chargeOf (options : RateLimitOptions) (requestDigest : String → String) (k : String) (file : Option String)
    (a : Attempt) : Option (Nat × String) :=
  if Commits options requestDigest file a ∧ k ∈ a.call.keys options then
    a.call.instant?.bind fun now => a.call.identity.map fun r => (now, r)
  else none

/-- The instants and the identities that a run charges to the scope `k`. -/
def history (options : RateLimitOptions) (requestDigest : String → String) (k : String) :
    Option String → List Attempt → List (Nat × String)
  | _, [] => []
  | file, a :: attempts =>
    (chargeOf options requestDigest k file a).toList ++
      history options requestDigest k (step options requestDigest file a) attempts

/-- The charge of an entry of the history. -/
def charge (requestDigest : String → String) (e : Nat × String) : LedgerEvent := ⟨e.1, some (requestDigest e.2)⟩

/-- What the history of a scope has left in the file: the charges above the horizon, once each. -/
structure Recorded (options : RateLimitOptions) (requestDigest : String → String) (k : String)
    (file : Option String) (past : List (Nat × String)) (last : Nat) : Prop where
  instants : ∀ e ∈ past, e.1 ≤ last
  there : ∀ e ∈ past, isKept last options.retentionMs options.idempotencyRetentionMs (charge requestDigest e) = true →
    charge requestDigest e ∈ chargesOf (ledgerOf options file) k
  once : ((past.map (charge requestDigest)).filter
    (isKept last options.retentionMs options.idempotencyRetentionMs)).Nodup

section Runs

variable {room : List String} {file : Option String} {k : String} {past : List (Nat × String)} {last now : Nat}

theorem Recorded.later (h : Recorded options requestDigest k file past last) (hnow : last ≤ now) :
    Recorded options requestDigest k file past now where
  instants e he := (h.instants e he).trans hnow
  there e he hkept := h.there e he (isKept_mono hnow hkept)
  once := h.once.sublist (monotone_filter_right _ fun _ hc => isKept_mono hnow hc)

/-- The file counts at least the history. -/
theorem Recorded.countWithin_le (h : Recorded options requestDigest k file past now) {windowMs : ℚ}
    (hwindow : windowMs ≤ options.retentionMs) :
    countWithin (fun x => minus x windowMs) (past.map Prod.fst) now ≤
      countCharges (ledgerOf options file) k windowMs now := by
  let kept := isKept now options.retentionMs options.idempotencyRetentionMs
  have hsubset : (past.map (charge requestDigest)).filter kept ⊆ chargesOf (ledgerOf options file) k := by
    intro c hc
    obtain ⟨hc, hkept⟩ := mem_filter.mp hc
    obtain ⟨e, he, rfl⟩ := mem_map.mp hc
    exact h.there e he hkept
  calc countWithin (fun x => minus x windowMs) (past.map Prod.fst) now
      = (past.map (charge requestDigest)).countP (inWindow windowMs now) := by
        rw [countWithin, countP_map, countP_map]
        rfl
    _ = ((past.map (charge requestDigest)).filter kept).countP (inWindow windowMs now) := by
        rw [countP_filter]
        refine countP_congr fun c _ => ?_
        rw [Bool.and_eq_true]
        exact ⟨fun hin => ⟨hin, isKept_of_inWindow hwindow hin⟩, And.left⟩
    _ ≤ countCharges (ledgerOf options file) k windowMs now :=
        (subperm_of_subset h.once hsubset).countP_le _

/-- A commit on other scopes. -/
theorem Recorded.other (h : Recorded options requestDigest k file past now) {file' : Option String}
    {keys : List String} {digest : Option String}
    (hcharged : Charged options (ledgerOf options file) (ledgerOf options file') keys now digest) :
    Recorded options requestDigest k file' past now where
  instants := h.instants
  there e he hkept := (hcharged k _).mpr ⟨.inl (h.there e he hkept), hkept⟩
  once := h.once

/-- A commit on the scope. -/
theorem Recorded.snoc (h : Recorded options requestDigest k file past now) {file' : Option String}
    {keys : List String} {r : String} (hk : k ∈ keys)
    (hcharged : Charged options (ledgerOf options file) (ledgerOf options file') keys now
      (some (requestDigest r)))
    (hfresh : carries (requestDigest r) (chargesOf (ledgerOf options file) k) = false) :
    Recorded options requestDigest k file' (past ++ [(now, r)]) now where
  instants e he := by
    rcases mem_append.mp he with he | he
    · exact h.instants e he
    · rw [mem_singleton.mp he]
  there e he hkept := by
    refine (hcharged k _).mpr ⟨?_, hkept⟩
    rcases mem_append.mp he with he | he
    · exact .inl (h.there e he hkept)
    · rw [mem_singleton.mp he]
      exact .inr ⟨hk, rfl⟩
  once := by
    rw [map_append, filter_append]
    refine h.once.append ((nodup_singleton _).filter _) fun c hc hnew => ?_
    obtain ⟨hc, hkept⟩ := mem_filter.mp hc
    obtain ⟨e, he, rfl⟩ := mem_map.mp hc
    have hnew : charge requestDigest e = charge requestDigest (now, r) := by
      simpa using mem_of_mem_filter hnew
    have hcarries : carries (requestDigest r) (chargesOf (ledgerOf options file) k) = true :=
      carries_iff.mpr ⟨_, hnew ▸ h.there e he hkept, rfl⟩
    rw [hfresh] at hcarries
    cases hcarries

theorem Call.keys_of_identity {call : Call} {r : String} (h : call.identity = some r) :
    call.keys options = (call.scopes options).map RequestScope.key := by
  cases call with
  | record key nowMs => cases h
  | consume scopes nowMs requestId => cases scopes <;> rfl

/-- One scope has one rule, and the instants do not decrease. -/
structure Steady (options : RateLimitOptions) (windowMs : String → ℚ) (limit : String → Nat)
    (attempts : List Attempt) : Prop where
  rule : ∀ a ∈ attempts, ∀ s ∈ a.call.scopes options, s.windowMs = windowMs s.key ∧ s.limit = limit s.key
  instants : attempts.Pairwise fun a b => ∀ now ∈ a.call.instant?, ∀ now' ∈ b.call.instant?, now ≤ now'

variable {windowMs : String → ℚ} {limit : String → Nat} {attempts : List Attempt}

/-- A commit leaves room for itself in the window that ends at its instant. -/
theorem Recorded.countWithin_lt (hdigest : ∀ s, isDigest (requestDigest s) = true) {a : Attempt}
    (hrule : ∀ s ∈ a.call.scopes options, s.windowMs = windowMs s.key ∧ s.limit = limit s.key)
    (hcommits : Commits options requestDigest file a) (hnow : a.call.instant? = some now) {r : String}
    (hr : a.call.identity = some r) (hk : k ∈ a.call.keys options)
    (h : Recorded options requestDigest k file past now) :
    countWithin (fun x => minus x (windowMs k)) (past.map Prod.fst) now < limit k := by
  rw [Call.keys_of_identity hr] at hk
  obtain ⟨s, hs, rfl⟩ := mem_map.mp hk
  obtain ⟨hwindow, hallowed⟩ := hcommits.allowed hdigest hnow s hs
  obtain ⟨hwindowMs, hlimit⟩ := hrule s hs
  rw [hwindowMs] at hwindow hallowed
  rw [hlimit] at hallowed
  exact (h.countWithin_le hwindow).trans_lt hallowed

theorem within_history (hdigest : ∀ s, isDigest (requestDigest s) = true) (hroom : Roomy options room file)
    (hkeys : ∀ a ∈ attempts, ∀ k ∈ a.call.keys options, k ∈ room)
    (hsteady : Steady options windowMs limit attempts)
    (hlast : ∀ a ∈ attempts, ∀ now ∈ a.call.instant?, last ≤ now)
    (hrecorded : Recorded options requestDigest k file past last)
    (hwithin : Within (fun x => minus x (windowMs k)) (limit k) (past.map Prod.fst)) :
    Within (fun x => minus x (windowMs k)) (limit k)
      ((past ++ history options requestDigest k file attempts).map Prod.fst) := by
  induction attempts generalizing file past last with
  | nil => simpa [history] using hwithin
  | cons a attempts ih =>
    have ha := hkeys a mem_cons_self
    obtain ⟨hfirst, hrest⟩ := pairwise_cons.mp hsteady.instants
    have hroom' := (landed_step hdigest hroom ha).roomy hroom ha
    have hkeys' : ∀ b ∈ attempts, ∀ k ∈ b.call.keys options, k ∈ room :=
      fun b hb => hkeys b (mem_cons_of_mem _ hb)
    have hsteady' : Steady options windowMs limit attempts :=
      ⟨fun b hb => hsteady.rule b (mem_cons_of_mem _ hb), hrest⟩
    rw [history]
    by_cases hcommits : Commits options requestDigest file a
    · obtain ⟨now, hnow, hcharged, hfresh⟩ := hcommits.charged hdigest hroom ha
      have hlast' : ∀ b ∈ attempts, ∀ now' ∈ b.call.instant?, now ≤ now' :=
        fun b hb now' hnow' => hfirst b hb now hnow now' hnow'
      have hnext := hrecorded.later (hlast a mem_cons_self now hnow)
      rw [Call.digest_eq] at hcharged hfresh
      by_cases hcharges : k ∈ a.call.keys options ∧ a.call.identity ≠ none
      · obtain ⟨hk, hidentity⟩ := hcharges
        obtain ⟨r, hr⟩ := Option.ne_none_iff_exists'.mp hidentity
        have hcharge : chargeOf options requestDigest k file a = some (now, r) := by
          rw [chargeOf, if_pos ⟨hcommits, hk⟩, hnow, hr]
          rfl
        rw [hr] at hcharged hfresh
        have hroomy := hnext.countWithin_lt hdigest (hsteady.rule a mem_cons_self) hcommits hnow hr hk
        have hwithin' := hwithin.snoc (fun _ _ hle => minus_mono hle _)
          (fun t ht => by
            obtain ⟨e, he, rfl⟩ := mem_map.mp ht
            exact hnext.instants e he) hroomy
        rw [hcharge, Option.toList_some, ← append_assoc]
        refine ih hroom' hkeys' hsteady' hlast' (hnext.snoc hk hcharged (hfresh _ rfl k hk)) ?_
        simpa using hwithin'
      · have hcharge : chargeOf options requestDigest k file a = none := by
          rw [chargeOf]
          split
          · next hk =>
            have hnone : a.call.identity = none := by
              by_contra hne
              exact hcharges ⟨hk.2, hne⟩
            rw [hnone, hnow]
            rfl
          · rfl
        rw [hcharge]
        exact ih hroom' hkeys' hsteady' hlast' (hnext.other hcharged) hwithin
    · have hcharge : chargeOf options requestDigest k file a = none :=
        if_neg fun hboth => hcommits hboth.1
      rw [hcharge]
      rw [step_of_not_commits hcommits] at hroom' ⊢
      exact ih hroom hkeys' hsteady' (fun b hb => hlast b (mem_cons_of_mem _ hb)) hrecorded hwithin

end Runs

/-- Identities that a run charges to a scope in entries of at most `n` instants are at most `n`. -/
theorem length_dedup_le {entries : List (Nat × String)} {p : Nat → Bool} {n : Nat}
    (h : (entries.map Prod.fst).countP p ≤ n) :
    ((entries.filter fun e => p e.1).map Prod.snd).dedup.length ≤ n := by
  calc ((entries.filter fun e => p e.1).map Prod.snd).dedup.length
      ≤ ((entries.filter fun e => p e.1).map Prod.snd).length := (dedup_sublist _).length_le
    _ = (entries.map Prod.fst).countP p := by
        rw [length_map, countP_map, ← countP_eq_length_filter]
        rfl
    _ ≤ n := h

theorem instant_le_of_mem_history {k : String} {attempts : List Attempt} {file : Option String}
    {e : Nat × String} (h : e ∈ history options requestDigest k file attempts) : e.1 ≤ maxSafe := by
  induction attempts generalizing file with
  | nil => cases h
  | cons a attempts ih =>
    rcases mem_append.mp h with hfirst | hrest
    · rw [Option.mem_toList, chargeOf] at hfirst
      split at hfirst
      · obtain ⟨now, hnow, hfirst⟩ := Option.bind_eq_some_iff.mp hfirst
        obtain ⟨r, -, rfl⟩ := Option.map_eq_some_iff.mp hfirst
        cases hcall : a.call with
        | record key nowMs => exact Number.safeNat?_le (hcall ▸ hnow)
        | consume scopes nowMs requestId => exact Number.safeNat?_le (hcall ▸ hnow)
      · cases hfirst
    · exact ih hrest

/-- Along every run whose keys fit under the cap, whose instants do not decrease and in which a scope has one
rule: the identities charged to a scope in a window are at most the limit of the scope, for every window, also
one of whole milliseconds, where the difference is exact. And pruning a ledger does not change what
`countInWindow` answers at that instant or later. -/
theorem window_bound (options : RateLimitOptions) (requestDigest : String → String)
    (hdigest : ∀ s, isDigest (requestDigest s) = true) {room : List String} {file : Option String}
    (hroom : Roomy options room file) {attempts : List Attempt}
    (hkeys : ∀ a ∈ attempts, ∀ k ∈ a.call.keys options, k ∈ room) {windowMs : String → ℚ}
    {limit : String → Nat} (hsteady : Steady options windowMs limit attempts) :
    (∀ k x, (((history options requestDigest k file attempts).filter fun e =>
        inWindow (windowMs k) x (charge requestDigest e)).map Prod.snd).dedup.length ≤ limit k) ∧
    (∀ k x w, windowMs k = (w : Nat) → (((history options requestDigest k file attempts).filter fun e =>
        decide (x < e.1 + w) && decide (e.1 ≤ x)).map Prod.snd).dedup.length ≤ limit k) ∧
    ∀ ledger, Fits options ledger → ∀ now key window (nowMs : Number),
      (∀ now' ∈ nowMs.safeNat?, now ≤ now') →
      countInWindow options (some (serializeLedger
          (pruneLedger ledger now options.retentionMs options.idempotencyRetentionMs))) key window nowMs =
        countInWindow options (some (serializeLedger ledger)) key window nowMs := by
  have hwithin : ∀ k, Within (fun x => minus x (windowMs k)) (limit k)
      ((history options requestDigest k file attempts).map Prod.fst) := by
    intro k
    have hstart : Recorded options requestDigest k file [] 0 :=
      ⟨(fun _ he => nomatch he), (fun _ he => nomatch he), nodup_nil⟩
    exact within_history hdigest hroom hkeys hsteady (fun _ _ _ _ => Nat.zero_le _) hstart fun x => Nat.zero_le _
  have hbound : ∀ k x, (((history options requestDigest k file attempts).filter fun e =>
      inWindow (windowMs k) x (charge requestDigest e)).map Prod.snd).dedup.length ≤ limit k :=
    fun k x => length_dedup_le (hwithin k x)
  refine ⟨hbound, fun k x w hw => ?_, fun ledger h now key window nowMs hnow => ?_⟩
  · have hsame : ((history options requestDigest k file attempts).filter fun e =>
        decide (x < e.1 + w) && decide (e.1 ≤ x)) =
        (history options requestDigest k file attempts).filter fun e =>
          inWindow (windowMs k) x (charge requestDigest e) := by
      refine filter_congr fun e he => ?_
      have hiff := @minus_lt_iff x w e.1 ((instant_le_of_mem_history he).trans_lt maxSafe_lt)
      rw [inWindow, hw, charge, decide_eq_decide.mpr hiff]
    rw [hsame]
    exact hbound k x
  · exact countInWindow_pruneLedger h key window hnow

/-- Two comments of one scope, one hour apart. -/
theorem window_bound_question :
    (((history defaultOptions digest101 "pr:github:misospace/pr-reviewer-action#1" none
        [question 1700000060000, question 1700003660000]).filter fun e =>
      decide (1700003660000 < e.1 + 900000) && decide (e.1 ≤ 1700003660000)).map Prod.snd).dedup.length ≤ 5 := by
  have hroom : Roomy defaultOptions ["pr:github:misospace/pr-reviewer-action#1",
      "actor:github:misospace/pr-reviewer-action#1:octocat"] none :=
    ⟨by decide, fun k c hc => nomatch hc⟩
  have hkeys : ∀ a ∈ [question 1700000060000, question 1700003660000], ∀ k ∈ a.call.keys defaultOptions,
      k ∈ ["pr:github:misospace/pr-reviewer-action#1", "actor:github:misospace/pr-reviewer-action#1:octocat"] := by
    decide +kernel
  have hsteady : Steady defaultOptions (fun _ => (900000 : Nat)) (fun _ => 5)
      [question 1700000060000, question 1700003660000] := by
    refine ⟨by decide +kernel, ?_⟩
    decide +kernel
  exact (window_bound defaultOptions digest101 isDigest_digest101 hroom hkeys hsteady).2.1 _ 1700003660000 900000 rfl

end PrReviewer.Followup
