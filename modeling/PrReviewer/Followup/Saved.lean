import PrReviewer.Followup.Canonical
import PrReviewer.Js.Machine

/-!
# The ledgers that are saved

`Consumed` says what the phase under the lock can do, and `saved_ok` that every ledger a call saves is one the
parser accepts. So the file of a run can always be read (`readable_run`), and what is read is what was saved
(`ledger_never_bricks`).

The digest of an identity is assumed to have the shape that Node documents: 64 lowercase hex digits.
-/

open Js

namespace PrReviewer.Followup

variable {options : RateLimitOptions} {requestDigest : String → String}

/-! ## One request -/

section Request

variable {ledger : Ledger} {scopes : List RequestScope} {now : Nat} {digest : Option String}

/-- What the phase under the lock can do. -/
inductive Consumed (options : RateLimitOptions) (ledger : Ledger) (scopes : List RequestScope) (now : Nat)
    (digest : Option String) : AtomicOutcome × Option Ledger → Prop where
  | denied (reason : Option String) : Consumed options ledger scopes now digest (.denied reason, none)
  /-- The identity is charged on every scope. -/
  | replayed (d : String) (hd : digest = some d)
      (h : ∀ s ∈ scopes, carries d (chargesOf ledger s.key) = true) :
      Consumed options ledger scopes now digest (.committed, none)
  /-- A request without an identity is charged at this instant. -/
  | present (hd : digest = none) (h : ∀ s ∈ scopes, ⟨now, none⟩ ∈ chargesOf ledger s.key) :
      Consumed options ledger scopes now digest (.committed, none)
  | saved (hfresh : ∀ d ∈ digest, ∀ s ∈ scopes, carries d (chargesOf ledger s.key) = false)
      (hallowed : ∀ s ∈ scopes, countCharges ledger s.key s.windowMs now < s.limit)
      (hsize : (evictToCap (insertCharges ledger scopes ⟨now, digest⟩).1 options.maxKeys
        (scopes.map RequestScope.key)).size ≤ options.maxKeys) :
      Consumed options ledger scopes now digest (.committed, some (pruneLedger
        (evictToCap (insertCharges ledger scopes ⟨now, digest⟩).1 options.maxKeys (scopes.map RequestScope.key))
        now options.retentionMs options.idempotencyRetentionMs))

theorem any_carries (ledger : Ledger) (k d : String) :
    (ledger.get? k).any (carries d) = carries d (chargesOf ledger k) := by
  unfold chargesOf
  cases ledger.get? k <;> rfl

theorem carries_iff {d : String} {charges : List LedgerEvent} :
    carries d charges = true ↔ ∃ c ∈ charges, c.id = some d := by
  simp [carries]

theorem consumed_commitCharges (h : LedgerOk ledger) (hcharge : ChargeOk ⟨now, digest⟩)
    (hkeys : ∀ s ∈ scopes, isKey s.key = true)
    (hfresh : ∀ d ∈ digest, ∀ s ∈ scopes, carries d (chargesOf ledger s.key) = false)
    (hallowed : ∀ s ∈ scopes, countCharges ledger s.key s.windowMs now < s.limit)
    (hne : digest ≠ none → scopes ≠ []) :
    Consumed options ledger scopes now digest (commitCharges options ledger scopes now digest) := by
  obtain ⟨-, -, hflag⟩ := @insertScopes_spec ⟨now, digest⟩ hcharge scopes hkeys (ledger, false) h
  have hchanged : (insertCharges ledger scopes ⟨now, digest⟩).2 = false ↔
      ∀ s ∈ scopes, ⟨now, digest⟩ ∈ chargesOf ledger s.key := hflag.trans (by simp)
  unfold commitCharges
  split
  next l changed heq =>
  rw [heq] at hchanged
  split
  · next hfalse =>
    have hpresent := hchanged.mp hfalse
    cases digest with
    | none => exact .present rfl hpresent
    | some d =>
      obtain ⟨s, hs⟩ := List.exists_mem_of_ne_nil _ (hne (by simp))
      have hcarries : carries d (chargesOf ledger s.key) = true := carries_iff.mpr ⟨_, hpresent s hs, rfl⟩
      rw [hfresh d rfl s hs] at hcarries
      cases hcarries
  · dsimp only
    split
    · exact .denied none
    · next hsize =>
      have hl : l = (insertCharges ledger scopes ⟨now, digest⟩).1 := by rw [heq]
      subst hl
      exact .saved hfresh hallowed (not_lt.mp hsize)

theorem consumed_consumeLocked (h : LedgerOk ledger) (hcharge : ChargeOk ⟨now, digest⟩)
    (hkeys : ∀ s ∈ scopes, isKey s.key = true) :
    Consumed options ledger scopes now digest (consumeLocked options ledger scopes now digest) := by
  unfold consumeLocked
  dsimp only
  split
  · next hall =>
    obtain ⟨hsome, hcount⟩ := hall
    obtain ⟨d, rfl⟩ := Option.ne_none_iff_exists'.mp hsome
    refine .replayed d rfl fun s hs => ?_
    rw [← any_carries]
    exact List.countP_eq_length.mp hcount s hs
  · next hall =>
    split
    · exact .denied _
    · next hzero =>
      have hfresh : ∀ d ∈ digest, ∀ s ∈ scopes, carries d (chargesOf ledger s.key) = false := by
        rintro d rfl s hs
        rw [← any_carries, ← Bool.not_eq_true]
        exact List.countP_eq_zero.mp (Nat.eq_zero_of_not_pos hzero) s hs
      have hne : digest ≠ none → scopes ≠ [] := by
        rintro hsome rfl
        obtain ⟨d, rfl⟩ := Option.ne_none_iff_exists'.mp hsome
        exact hall ⟨hsome, rfl⟩
      split
      · next hallowed =>
        refine consumed_commitCharges h hcharge hkeys hfresh (fun s hs => ?_) hne
        simpa using List.all_eq_true.mp hallowed s hs
      · exact .denied none

end Request

/-! ## One call -/

/-- A ledger that the parser accepts under the cap. -/
def Fits (options : RateLimitOptions) (ledger : Ledger) : Prop :=
  LedgerOk ledger ∧ ledger.size ≤ options.maxKeys

theorem fits_empty (options : RateLimitOptions) : Fits options .empty := ⟨.empty, Nat.zero_le _⟩

theorem Fits.pruneLedger {ledger : Ledger} (h : Fits options ledger) (now : Nat) :
    Fits options (pruneLedger ledger now options.retentionMs options.idempotencyRetentionMs) :=
  ⟨h.1.pruneLedger _ _ _, size_pruneLedger.trans h.2⟩

theorem loaded_ok {file : Option String} {loaded : Option Ledger}
    (h : loadLedgerUnlocked options file = .ok loaded) : Fits options (loaded.getD .empty) := by
  cases file with
  | none => cases h; exact fits_empty options
  | some text =>
    obtain ⟨ledger, hledger, rfl⟩ := Except.of_map_ok h
    exact parseLedger_ok hledger

/-- A scope that passes its checks. -/
theorem validateScope_ok {v : Value} {s : RequestScope} (h : validateScope options v = .ok s) :
    isKey s.key = true ∧ 0 < s.windowMs ∧ s.windowMs ≤ options.retentionMs ∧ 0 < s.limit := by
  unfold validateScope at h
  split at h
  · split at h
    · split at h
      · cases h
      · next hkey =>
        split at h
        · split at h
          · cases h
          · split at h
            · cases h
            · next hpos =>
              split at h
              · cases h
              · next hretention =>
                split at h
                · cases h
                · split at h
                  · cases h
                  · next hlimit =>
                    cases h
                    refine ⟨by simpa using hkey, not_le.mp hpos, not_lt.mp hretention, ?_⟩
                    exact Int.pos_iff_toNat_pos.mp (not_le.mp hlimit)
        · cases h
    · cases h
  · cases h

/-- The parts of a request that is not refused. -/
structure Accepted (options : RateLimitOptions) (file : Option String) (scopes : Value) (nowMs : Number)
    (now : Nat) (elements : List Value) (validated : List RequestScope) (loaded : Option Ledger) : Prop where
  now_eq : nowMs.safeNat? = some now
  scopes_eq : scopes = .array elements
  validated_eq : elements.mapM (validateScope options) = .ok validated
  loaded_eq : loadLedgerUnlocked options file = .ok loaded

section Call

variable {file : Option String} {scopes : Value} {nowMs : Number} {requestId : Option String} {now : Nat}
  {elements : List Value} {validated : List RequestScope} {loaded : Option Ledger}

theorem consume_accepted (h : Accepted options file scopes nowMs now elements validated loaded) :
    consumeScopesAtomically options requestDigest file scopes nowMs requestId =
      .ok (consumeLocked options (loaded.getD .empty) validated now (digestOf requestDigest requestId)) := by
  unfold consumeScopesAtomically
  rw [h.now_eq, h.scopes_eq]
  dsimp only
  rw [h.validated_eq]
  dsimp only
  rw [h.loaded_eq]
  rfl

/-- A call answers from the phase under the lock, or refuses its input. -/
theorem consume_cases {answer : AtomicOutcome × Option Ledger}
    (h : consumeScopesAtomically options requestDigest file scopes nowMs requestId = .ok answer) :
    (∃ reason, answer = (.denied reason, none)) ∨
      ∃ now elements validated loaded, Accepted options file scopes nowMs now elements validated loaded ∧
        answer = consumeLocked options (loaded.getD .empty) validated now (digestOf requestDigest requestId) := by
  unfold consumeScopesAtomically at h
  split at h
  · cases h
    exact .inl ⟨_, rfl⟩
  · next now hnow =>
    split at h
    · next elements =>
      split at h
      · cases h
        exact .inl ⟨_, rfl⟩
      · next validated hvalidated =>
        obtain ⟨loaded, hloaded, h⟩ := Except.of_bind_ok h
        cases h
        exact .inr ⟨now, elements, validated, loaded, ⟨hnow, rfl, hvalidated, hloaded⟩, rfl⟩
    · cases h
      exact .inl ⟨_, rfl⟩

theorem Accepted.keys (h : Accepted options file scopes nowMs now elements validated loaded) :
    ∀ s ∈ validated, isKey s.key = true := by
  intro s hs
  obtain ⟨v, -, hv⟩ := ((Except.mapM_spec h.validated_eq).2 s).mp hs
  exact (validateScope_ok hv).1

theorem Accepted.chargeOk (h : Accepted options file scopes nowMs now elements validated loaded)
    (hdigest : ∀ s, isDigest (requestDigest s) = true) (requestId : Option String) :
    ChargeOk ⟨now, digestOf requestDigest requestId⟩ := by
  refine ⟨Number.safeNat?_le h.now_eq, fun id hid => ?_⟩
  obtain ⟨s, -, rfl⟩ := Option.map_eq_some_iff.mp hid
  exact hdigest s

/-- What an accepted request can do. -/
theorem Accepted.consumed (h : Accepted options file scopes nowMs now elements validated loaded)
    (hdigest : ∀ s, isDigest (requestDigest s) = true) (requestId : Option String) :
    Consumed options (loaded.getD .empty) validated now (digestOf requestDigest requestId)
      (consumeLocked options (loaded.getD .empty) validated now (digestOf requestDigest requestId)) :=
  consumed_consumeLocked (loaded_ok h.loaded_eq).1 (h.chargeOk hdigest requestId) h.keys

theorem consume_saved_ok (hdigest : ∀ s, isDigest (requestDigest s) = true) {ledger : Ledger}
    {outcome : AtomicOutcome}
    (h : consumeScopesAtomically options requestDigest file scopes nowMs requestId = .ok (outcome, some ledger)) :
    Fits options ledger := by
  rcases consume_cases h with ⟨reason, heq⟩ | ⟨now, elements, validated, loaded, haccepted, heq⟩
  · cases heq
  · have hconsumed := haccepted.consumed hdigest requestId
    have hok := loaded_ok haccepted.loaded_eq
    rw [← heq] at hconsumed
    cases hconsumed with
    | saved hfresh hallowed hsize =>
      have hinserted := (@insertScopes_spec _ (haccepted.chargeOk hdigest requestId) _ haccepted.keys
        (loaded.getD .empty, false) hok.1).1
      exact Fits.pruneLedger ⟨hinserted.evictToCap _ _, hsize⟩ now

theorem record_saved_ok {key : String} {ledger : Ledger}
    (h : record options file key nowMs = .ok (some ledger)) : Fits options ledger := by
  unfold record at h
  split at h
  · cases h
  · next hkey =>
    rw [Bool.not_eq_false] at hkey
    split at h
    · cases h
    · next now hnow =>
      have hcharge : ChargeOk ⟨now, none⟩ := ⟨Number.safeNat?_le hnow, by simp⟩
      obtain ⟨loaded, hloaded, h⟩ := Except.of_bind_ok h
      have hok := loaded_ok hloaded
      cases loaded with
      | none =>
        cases h
        refine ⟨LedgerOk.empty.set hkey (chargesOk_singleton hcharge), ?_⟩
        exact options.maxKeys_pos
      | some current =>
        dsimp only at h
        split at h
        · cases h
          refine Fits.pruneLedger ⟨(hok.1.set hkey (chargesOk_singleton hcharge)).evictToCap _ _, ?_⟩ now
          exact size_evictToCap options.maxKeys_pos
        · next existing hexisting =>
          split at h
          · cases h
          · next charges hcharges =>
            cases h
            have hcharges := (hok.1 _ _ hexisting).2.insertCharge hcharge hcharges
            exact Fits.pruneLedger ⟨hok.1.set hkey hcharges, (Map.size_set_of_some hexisting).trans_le hok.2⟩ now

end Call

/-! ## Runs -/

theorem saved_fits (hdigest : ∀ s, isDigest (requestDigest s) = true) {file : Option String} {call : Call}
    {ledger : Ledger} (h : saved options requestDigest file call = some ledger) : Fits options ledger := by
  cases call with
  | record key nowMs =>
    rw [saved, Option.join_eq_some_iff] at h
    exact record_saved_ok (Except.of_toOption h)
  | consume scopes nowMs requestId =>
    obtain ⟨⟨outcome, ledger'⟩, hanswer, heq⟩ := Option.bind_eq_some_iff.mp h
    obtain rfl : ledger' = some ledger := heq
    exact consume_saved_ok hdigest (Except.of_toOption hanswer)

/-- A file that is missing or that the parser accepts. -/
def Readable (options : RateLimitOptions) (file : Option String) : Prop :=
  ∀ text ∈ file, ∃ ledger, parseLedger text options.maxKeys = .ok ledger

theorem readable_step (hdigest : ∀ s, isDigest (requestDigest s) = true) {file : Option String}
    (h : Readable options file) (a : Attempt) : Readable options (step options requestDigest file a) := by
  unfold step
  cases hsaved : saved options requestDigest file a.call with
  | none => exact h
  | some ledger =>
    dsimp only
    split
    · rintro text ⟨⟩
      obtain ⟨hok, hsize⟩ := saved_fits hdigest hsaved
      obtain ⟨l, hl, -⟩ := parseLedger_serializeLedger hok hsize
      exact ⟨l, hl⟩
    · exact h

theorem readable_run (hdigest : ∀ s, isDigest (requestDigest s) = true) {file : Option String}
    (h : Readable options file) (attempts : List Attempt) :
    Readable options (Machine.run (step options requestDigest) file attempts) :=
  Machine.invariant (I := Readable options) (fun _ a hs => readable_step hdigest hs a) h attempts

/-- From a file that is accepted, every run keeps the file accepted; each ledger that a call saves there is
read back with the same scopes and charges; and equal ledgers are written the same. -/
theorem ledger_never_bricks (options : RateLimitOptions) (requestDigest : String → String)
    (hdigest : ∀ s, isDigest (requestDigest s) = true) {file : Option String} (hfile : Readable options file)
    (attempts : List Attempt) :
    Readable options (Machine.run (step options requestDigest) file attempts) ∧
      (∀ call ledger,
        saved options requestDigest (Machine.run (step options requestDigest) file attempts) call =
          some ledger →
        ∃ parsed, parseLedger (serializeLedger ledger) options.maxKeys = .ok parsed ∧
          ∀ key, parsed.get? key = ledger.get? key) ∧
      ∀ ledger ledger' : Ledger, (∀ key, ledger.get? key = ledger'.get? key) →
        serializeLedger ledger = serializeLedger ledger' := by
  refine ⟨readable_run hdigest hfile attempts, fun call ledger hsaved => ?_, fun _ _ => serializeLedger_congr⟩
  obtain ⟨hok, hsize⟩ := saved_fits hdigest hsaved
  exact parseLedger_serializeLedger hok hsize

/-! ## An example -/

def defaultOptions : RateLimitOptions where
  retentionMs := 86400000
  idempotencyRetentionMs := 604800000
  maxKeys := 10000
  retentionMs_pos := by decide
  retentionMs_le := by decide
  maxKeys_pos := by decide

/-- The digest of the identity `github:misospace/pr-reviewer-action#1:101`. -/
def digest101 (_ : String) : String := "e1b72170bcb5c7c1ed63885440144cd6055be06924cb4f9a7e8aed69ae3c79f1"

def questionScope (key : String) : Value :=
  .object [("key", .string key), ("rule", .object [("limit", .count 5), ("windowMs", .count 900000)])]

/-- The follow-up comment 101, at `nowMs`. -/
def question (nowMs : Number) : Attempt where
  call := .consume (.array [questionScope "pr:github:misospace/pr-reviewer-action#1",
    questionScope "actor:github:misospace/pr-reviewer-action#1:octocat"]) nowMs
    "github:misospace/pr-reviewer-action#1:101"
  lands := true

/-- A file of version 1. -/
def legacyFile : String :=
  Json.stringify (.object [("version", .count 1), ("scopes", .array [
    .object [("key", .string "pr:github:misospace/pr-reviewer-action#1"),
      ("events", .array [.count 1700000000000])]])])

theorem isDigest_digest101 (s : String) : isDigest (digest101 s) = true := by
  unfold digest101
  decide +kernel

/-- The value that `legacyFile` is the text of. -/
def legacyValue : Value :=
  .object [("version", .count 1), ("scopes", .array [
    .object [("key", .string "pr:github:misospace/pr-reviewer-action#1"),
      ("events", .array [.count 1700000000000])]])]

theorem plain_legacyValue : Json.Plain legacyValue :=
  .object (by simp) (List.forall_mem_cons.mpr ⟨.count (by decide), List.forall_mem_singleton.mpr
    (.array (List.forall_mem_singleton.mpr (.object (by simp) (List.forall_mem_cons.mpr ⟨.string _,
      List.forall_mem_singleton.mpr (.array (List.forall_mem_singleton.mpr (.count (by decide))))⟩))))⟩)

theorem ledger_never_bricks_legacy :
    Readable defaultOptions (Machine.run (step defaultOptions digest101) (some legacyFile)
      [question 1700000060000]) := by
  have hfile : Readable defaultOptions (some legacyFile) := by
    intro text htext
    obtain rfl : legacyFile = text := Option.some.inj htext
    have hok : (parseLedger legacyFile defaultOptions.maxKeys).isOk = true := by
      have hread : Json.parse legacyFile = _ :=
        (congrArg Json.parse String.append_empty.symm).trans
          (Json.parse_stringify plain_legacyValue (by decide : Json.skip "".toList = []))
      rw [parseLedger]
      generalize Json.parse legacyFile = parsed at hread ⊢
      rw [hread]
      decide +kernel
    cases hparse : parseLedger legacyFile defaultOptions.maxKeys with
    | error e => rw [hparse] at hok; cases hok
    | ok ledger => exact ⟨ledger, rfl⟩
  exact (ledger_never_bricks defaultOptions digest101 isDigest_digest101 hfile _).1

end PrReviewer.Followup
