import PrReviewer.Controller.GenerationLedger
import PrReviewer.State.Restart

/-!
# Steps of the generation ledger

What the store does with a claim and a release (`claim_cases`, `release_cases`), and what one step of the system can
be (`Move`): a call begins (`Spawn`), or a call that waits goes on (`Go`). `move_step` is the only place that looks
into the steps themselves.
-/

open Js List

namespace PrReviewer.Controller.GenerationLedger

open State

/-! ## Claims and releases at the store -/

section Store

variable {ttlMs nowMs : Number} {jobId token : String} {t t' : StateTables} {e : Exn}

theorem claimKey_injective {j j' : String} (h : claimKey j = claimKey j') : j = j' :=
  (String.append_right_inj _).mp h

theorem bindingOf_injective {u u' : String} (h : bindingOf u = bindingOf u') : u = u' :=
  (String.append_right_inj _).mp h

theorem append_ne_empty {s u : String} (h : s.length ≠ 0) : s ++ u ≠ "" := by
  intro hempty
  have hlength := congrArg String.length hempty
  rw [String.length_append, String.length_empty] at hlength
  omega

theorem applyBatch_singleton (f : String → Bool) (t : StateTables) (m : StateMutation) :
    applyBatch f t [m] = applyMutation f t m := by
  simp [applyBatch]

/-- The record of a claim. -/
def recordOf (ttlMs : Number) (jobId token : String) (nowMs : Number) : IdempotencyKeyRecord :=
  ⟨claimKey jobId, bindingOf token, nowMs, nowMs + ttlMs⟩

theorem validateIdempotencyKey_claim {r : IdempotencyKeyRecord}
    (h : validateIdempotencyKey (.object [("key", .string (claimKey jobId)), ("binding", .string (bindingOf token)),
      ("createdAtMs", .number nowMs), ("expiresAtMs", .number (nowMs + ttlMs))]) = some r) :
    r = recordOf ttlMs jobId token nowMs := by
  have hread := Option.eq_some_of_filter_eq_some h
  simp [readIdempotencyKey, Value.get, Value.string?, Value.number?, lookup_cons] at hread
  exact hread.symm

/-- The tables behind a claim that is taken. -/
def claimed (ttlMs : Number) (jobId token : String) (nowMs : Number) (t : StateTables) : StateTables :=
  { t with idempotencyKeys := t.idempotencyKeys.set (claimKey jobId) (recordOf ttlMs jobId token nowMs) }

/-- A claim is malformed, or it is taken unless a live claim stands under another token. -/
theorem claim_cases (ttlMs : Number) (jobId token : String) (nowMs : Number) :
    (∃ e, e.name ≠ "StateConflictError" ∧
        ∀ t, applyBatch (fun _ => true) t [claimMutation ttlMs jobId token nowMs] = .error e) ∨
      ∀ t, applyBatch (fun _ => true) t [claimMutation ttlMs jobId token nowMs] =
        match t.idempotencyKeys.get? (claimKey jobId) with
        | none => .ok (claimed ttlMs jobId token nowMs t)
        | some existing =>
          if existing.expired nowMs then .ok (claimed ttlMs jobId token nowMs t)
          else if existing.binding = bindingOf token then .ok t
          else .error (stateConflict "claim-idempotency: key is bound to different work") := by
  simp only [applyBatch_singleton]
  simp only [claimMutation, applyMutation]
  cases hnow : requireClock "claim-idempotency" "nowMs" (.number nowMs) with
  | error e =>
    refine .inl ⟨e, ?_, fun t => rfl⟩
    unfold requireClock at hnow
    split at hnow <;> cases hnow
    simp [rangeError]
  | ok now =>
    have hnow' : now = nowMs := by
      have := requireClock_ok hnow
      simp only [finite?, Value.number?, Option.filter_eq_some_iff, Option.some.injEq] at this
      exact this.1.symm
    subst hnow'
    dsimp only [bind, Except.bind]
    split
    · exact .inl ⟨_, by simp [rangeError], fun t => rfl⟩
    next expiry hexpiry =>
    have hexpiry' : expiry = now + ttlMs := by
      simp only [finite?, Value.number?, Option.filter_eq_some_iff, Option.some.injEq] at hexpiry
      exact hexpiry.1.1.symm
    subst hexpiry'
    split
    · exact .inl ⟨_, by simp [error], fun t => rfl⟩
    next record hrecord =>
    obtain rfl := validateIdempotencyKey_claim hrecord
    exact .inr fun t => rfl

/-- A release is malformed, or it goes through unless a live claim stands under another token. -/
theorem release_cases (jobId token : String) (nowMs : Number) (t : StateTables) :
    (∃ e, applyBatch (fun _ => true) t [releaseMutation jobId token nowMs] = .error e ∧
        e.name ≠ "StateConflictError") ∨
      applyBatch (fun _ => true) t [releaseMutation jobId token nowMs] =
        match t.idempotencyKeys.get? (claimKey jobId) with
        | none => .ok t
        | some existing =>
          if existing.binding = bindingOf token ∨ existing.expired nowMs = true then
            .ok { t with idempotencyKeys := t.idempotencyKeys.delete (claimKey jobId) }
          else .error (stateConflict "release-idempotency: key is bound to different work") := by
  rw [applyBatch_singleton]
  simp only [releaseMutation, applyMutation]
  cases hnow : requireClock "release-idempotency" "nowMs" (.number nowMs) with
  | error e =>
    refine .inl ⟨e, rfl, ?_⟩
    unfold requireClock at hnow
    split at hnow <;> cases hnow
    simp [rangeError]
  | ok now =>
    have hnow' : now = nowMs := by
      have := requireClock_ok hnow
      simp only [finite?, Value.number?, Option.filter_eq_some_iff, Option.some.injEq] at this
      exact this.1.symm
    subst hnow'
    have hkey : (Value.string (claimKey jobId)).string?.filter (· ≠ "") = some (claimKey jobId) :=
      Option.filter_some_pos (decide_eq_true (append_ne_empty (by decide)))
    have hbinding : (Value.string (bindingOf token)).string?.filter (· ≠ "") = some (bindingOf token) :=
      Option.filter_some_pos (decide_eq_true (append_ne_empty (by decide)))
    dsimp only [bind, Except.bind]
    rw [hkey, hbinding]
    exact .inr rfl

end Store

/-! ## Steps -/

section

variable (randomUUID : Nat → String) (ttlMs : Number)

/-- How a call begins, with what the log gains. -/
inductive Spawn (s : System) : Call → List LogEntry → Prop
  | known (c jobId) : Spawn s ⟨c, jobId, .ended (.ok false)⟩ [.returned s.calls.length false]
  | claim (c jobId) : Spawn s ⟨c, jobId, .claiming s.clock⟩ []
  | nothing (c jobId) : Spawn s ⟨c, jobId, .ended (.ok false)⟩ []
  | release (c jobId token) (owned : (s.claims c).get? jobId = some token) :
    Spawn s ⟨c, jobId, .releasing token s.clock⟩ [.removing c jobId]

/-- How a call goes on: its next phase, and the claims, the tables and the entries of the log behind the step. -/
inductive Go (s : System) (i : Nat) (call : Call) :
    Phase → (Nat → Map String String) → StateTables → List LogEntry → Prop
  | claimFails (nowMs e) (phase : call.phase = .claiming nowMs) :
    Go s i call (.claimAnswered (.error e)) s.claims s.tables []
  | claimRefused (nowMs e delivery r) (phase : call.phase = .claiming nowMs)
      (found : s.tables.idempotencyKeys.get? (claimKey call.jobId) = some r) :
    Go s i call (.claimAnswered (.error e)) s.claims s.tables
      [.refused ⟨i, call.controller, call.jobId, nowMs, s.clock, delivery⟩]
  | claimStored (nowMs delivery tables) (phase : call.phase = .claiming nowMs)
      (taken : (∃ r, s.tables.idempotencyKeys.get? (claimKey call.jobId) = some r ∧
          r.binding = bindingOf (randomUUID i) ∧ tables = s.tables) ∨
        ((∀ r, s.tables.idempotencyKeys.get? (claimKey call.jobId) = some r → r.expired nowMs = true) ∧
          tables = claimed ttlMs call.jobId (randomUUID i) nowMs s.tables)) :
    Go s i call (.claimAnswered (System.arrived delivery (.ok ()))) s.claims tables
      [.stored ⟨i, call.controller, call.jobId, nowMs, s.clock, delivery⟩]
  | readBack (e stored) (phase : call.phase = .readingBack e)
      (read : ∀ r, stored = some r → s.tables.idempotencyKeys.get? (claimKey call.jobId) = some r) :
    Go s i call (.readBack e stored) s.claims s.tables []
  | releaseFails (token nowMs e) (phase : call.phase = .releasing token nowMs) :
    Go s i call (.releaseAnswered (.error e)) s.claims s.tables []
  | released (token nowMs answer tables) (phase : call.phase = .releasing token nowMs)
      (freed : (s.tables.idempotencyKeys.get? (claimKey call.jobId) = none ∧ tables = s.tables) ∨
        ∃ r, s.tables.idempotencyKeys.get? (claimKey call.jobId) = some r ∧
          (r.binding = bindingOf token ∨ r.expired nowMs = true) ∧
          tables = { s.tables with
            idempotencyKeys := s.tables.idempotencyKeys.delete (claimKey call.jobId) }) :
    Go s i call (.releaseAnswered answer) s.claims tables
      [.released call.jobId token nowMs (s.tables.idempotencyKeys.get? (claimKey call.jobId))]
  | readsBack (e) (phase : call.phase = .claimAnswered (.error e)) :
    Go s i call (.readingBack e) s.claims s.tables []
  | answersFalse (phase : (∃ e, call.phase = .claimAnswered (.error e)) ∨
        ∃ e r, call.phase = .readBack e (some r) ∧ r.binding ≠ bindingOf (randomUUID i)) :
    Go s i call (.ended (.ok false)) s.claims s.tables [.returned i false]
  | owns (phase : call.phase = .claimAnswered (.ok ()) ∨
        ∃ e r, call.phase = .readBack e (some r) ∧ r.binding = bindingOf (randomUUID i)) :
    Go s i call (.ended (.ok true))
      (Function.update s.claims call.controller ((s.claims call.controller).set call.jobId (randomUUID i))) s.tables
      [.returned i true]
  | throws (e) (phase : (∃ e, call.phase = .readBack e none) ∨ ∃ answer, call.phase = .releaseAnswered answer) :
    Go s i call (.ended (.error e)) s.claims s.tables []
  | forgets (answer) (phase : call.phase = .releaseAnswered answer) :
    Go s i call (.ended (.ok false))
      (Function.update s.claims call.controller ((s.claims call.controller).delete call.jobId)) s.tables []

inductive Move (s : System) : System → Prop
  | idle : Move s s
  | time (now) (later : s.clock ≤ now) : Move s { s with clock := now }
  | spawn (call entries) (spawned : Spawn s call entries) :
    Move s { s with calls := s.calls ++ [call], log := s.log ++ entries }
  | go (i call phase claims tables entries) (found : s.calls[i]? = some call)
      (goes : Go randomUUID ttlMs s i call phase claims tables entries) :
    Move s { s with
      calls := s.calls.set i { call with phase }
      claims
      tables
      log := s.log ++ entries }

variable {randomUUID ttlMs} in
theorem Move.quiet {s : System} {i : Nat} {call : Call} {phase : Phase} (found : s.calls[i]? = some call)
    (goes : Go randomUUID ttlMs s i call phase s.claims s.tables []) :
    Move randomUUID ttlMs s (s.setPhase i call phase) := by
  have hmove := Move.go i call phase s.claims s.tables [] found goes
  rw [append_nil] at hmove
  exact hmove

theorem arrived_error (delivery : Delivery) (e : Exn) :
    ∃ e', System.arrived delivery (.error e : Except Exn Unit) = .error e' := by
  unfold System.arrived
  split
  · exact ⟨e, rfl⟩
  · exact ⟨transportError, rfl⟩

theorem move_storeClaim {s : System} {i : Nat} {call : Call} {nowMs : Number} (found : s.calls[i]? = some call)
    (phase : call.phase = .claiming nowMs) (delivery : Delivery) :
    Move randomUUID ttlMs s (s.storeClaim randomUUID ttlMs i call nowMs delivery) := by
  unfold System.storeClaim
  split
  · exact .quiet found (.claimFails nowMs _ phase)
  · dsimp only
    rcases claim_cases ttlMs call.jobId (randomUUID i) nowMs with ⟨e, hname, heq⟩ | heq
    · rw [heq]
      dsimp only
      rw [if_neg hname]
      obtain ⟨e', he'⟩ := arrived_error delivery e
      rw [he', System.logged, append_nil]
      exact .quiet found (.claimFails nowMs _ phase)
    · rw [heq]
      have hstored (tables) (taken) : Move randomUUID ttlMs s _ :=
        Move.go i call _ s.claims tables _ found (.claimStored nowMs delivery tables phase taken)
      split
      · next tables htables =>
        split at htables
        · next hnone =>
          cases htables
          exact hstored _ (.inr ⟨by simp [hnone], rfl⟩)
        · next existing hsome =>
          split at htables
          · next hexpired =>
            cases htables
            exact hstored _ (.inr ⟨by simp [hsome, hexpired], rfl⟩)
          · split at htables
            · next hbinding =>
              cases htables
              exact hstored _ (.inl ⟨existing, hsome, hbinding, rfl⟩)
            · cases htables
      · next e he =>
        split at he
        · cases he
        · next existing hsome =>
          split at he
          · cases he
          · split at he
            · cases he
            · cases he
              obtain ⟨e', he'⟩ := arrived_error delivery
                (stateConflict "claim-idempotency: key is bound to different work")
              rw [he']
              exact Move.go i call _ s.claims s.tables _ found
                (.claimRefused nowMs _ delivery existing phase hsome)

theorem move_storeRelease {s : System} {i : Nat} {call : Call} {token : String} {nowMs : Number}
    (found : s.calls[i]? = some call) (phase : call.phase = .releasing token nowMs) (delivery : Delivery) :
    Move randomUUID ttlMs s (s.storeRelease i call token nowMs delivery) := by
  have hfails (e : Exn) : Move randomUUID ttlMs s
      (s.setPhase i call (.releaseAnswered (System.arrived delivery (.error e)))) := by
    obtain ⟨e', he'⟩ := arrived_error delivery e
    rw [he']
    exact .quiet found (.releaseFails token nowMs _ phase)
  have hfreed (tables) (freed) : Move randomUUID ttlMs s _ :=
    Move.go i call _ s.claims tables _ found
      (.released token nowMs (System.arrived delivery (.ok ())) tables phase freed)
  unfold System.storeRelease
  split
  · exact .quiet found (.releaseFails token nowMs _ phase)
  · rcases release_cases call.jobId token nowMs s.tables with ⟨e, heq, -⟩ | heq
    · rw [heq]
      exact hfails e
    · rw [heq]
      split
      · next tables htables =>
        split at htables
        · next hnone =>
          cases htables
          exact hfreed _ (.inl ⟨hnone, rfl⟩)
        · next existing hsome =>
          split at htables
          · next hfree =>
            cases htables
            exact hfreed _ (.inr ⟨existing, hsome, hfree, rfl⟩)
          · cases htables
      · exact hfails _

theorem move_store (s : System) (i : Nat) (delivery : Delivery) :
    Move randomUUID ttlMs s (s.store randomUUID ttlMs i delivery) := by
  unfold System.store
  split
  · exact .idle
  · next call found =>
    split
    · next nowMs phase => exact move_storeClaim randomUUID ttlMs found phase delivery
    · next thrown phase =>
      refine .quiet found (.readBack thrown _ phase fun r hr => ?_)
      split at hr
      · exact hr
      · cases hr
    · next token nowMs phase => exact move_storeRelease randomUUID ttlMs found phase delivery
    · exact .idle

theorem move_resume (s : System) (i : Nat) : Move randomUUID ttlMs s (s.resume randomUUID i) := by
  unfold System.resume
  split
  · exact .idle
  · next call found =>
    have hfalse (phase) : Move randomUUID ttlMs s (s.answer i call false) :=
      .go i call _ _ _ _ found (.answersFalse phase)
    have howns (phase) : Move randomUUID ttlMs s (s.own randomUUID i call) :=
      .go i call _ _ _ _ found (.owns phase)
    have hforgets (answer) (phase : call.phase = .releaseAnswered answer) :
        Move randomUUID ttlMs s (s.forget i call) := by
      have hmove : Move randomUUID ttlMs s _ := .go i call _ _ _ _ found (.forgets answer phase)
      rw [append_nil] at hmove
      exact hmove
    split
    · next phase => exact howns (.inl phase)
    · next e phase =>
      split
      · exact hfalse (.inl ⟨e, phase⟩)
      · exact .quiet found (.readsBack e phase)
    · next thrown phase => exact .quiet found (.throws _ (.inl ⟨thrown, phase⟩))
    · next e stored phase =>
      split
      · next hne => exact hfalse (.inr ⟨e, stored, phase, hne⟩)
      · next heq => exact howns (.inr ⟨e, stored, phase, by simpa using heq⟩)
    · next phase => exact hforgets _ phase
    · next e phase =>
      split
      · exact hforgets _ phase
      · exact .quiet found (.throws _ (.inr ⟨_, phase⟩))
    · exact .idle

/-- Every step is one of these moves. -/
theorem move_step (s : System) (e : Event) : Move randomUUID ttlMs s (s.step randomUUID ttlMs e) := by
  cases e with
  | time now =>
    unfold System.step
    dsimp only
    split
    · next hlater => exact .time now hlater
    · exact .idle
  | addIfAbsent c jobId =>
    change Move randomUUID ttlMs s (s.addIfAbsent c jobId)
    unfold System.addIfAbsent
    split
    · exact .spawn _ _ (.known c jobId)
    · have hmove : Move randomUUID ttlMs s _ := .spawn _ _ (.claim c jobId)
      rw [append_nil] at hmove
      exact hmove
  | remove c jobId =>
    change Move randomUUID ttlMs s (s.remove c jobId)
    unfold System.remove
    split
    · have hmove : Move randomUUID ttlMs s _ := .spawn _ _ (.nothing c jobId)
      rw [append_nil] at hmove
      exact hmove
    · next token howned => exact .spawn _ _ (.release c jobId token howned)
  | store i delivery => exact move_store randomUUID ttlMs s i delivery
  | resume i => exact move_resume randomUUID ttlMs s i

end

end PrReviewer.Controller.GenerationLedger
