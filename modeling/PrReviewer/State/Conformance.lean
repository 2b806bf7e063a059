import PrReviewer.Js.Order
import PrReviewer.State.Postgres
import PrReviewer.State.Restart

/-!
# The PostgreSQL store and the in-memory store

Both stores are run over the same calls, one after the other, from empty. `Simulates` relates the tables:
they hold the same records. Every call that meets `Conforms` answers the same on both sides and keeps the
relation (`perform_agree`), and related tables answer the same reads (`sameAnswers`). So along a run the
two stores cannot be told apart (`conformance`).

`Conforms` names what the two sides do differently:

- `put-installation`, `put-adopted-repository` and `put-publication` of a stored identity keep its creation
  time in PostgreSQL and replace it in memory;
- `transition-run` with a malformed patch is refused in PostgreSQL before the run is looked up, in memory
  afterwards;
- a text with a NUL character that no validator sees is an error in PostgreSQL and an unknown id in memory.

Two reads differ as well: sums of usage beyond the safe integers are an error in PostgreSQL and are rounded in
memory, and the string key of the in-memory repository table does not separate an installation id that
contains a slash.
-/

open Js List
open Sql

namespace PrReviewer.State

open Queue (JobPlatform JobLifecycleState canTransition isTerminalState)
open Postgres (Database repositoryKey textParameters)

/-! ## The same records -/

/-- The table holds the values of the map. -/
def SameRows {ρ κ : Type} {key : ρ → κ} (m : Map String ρ) (T : Table key) : Prop :=
  ∀ r, r ∈ T.rows ↔ r ∈ m.values

section SameRows

variable {ρ κ : Type} [DecidableEq κ] {key : ρ → κ} {identity : ρ → String} {valid : ρ → Prop}
  {m : Map String ρ} {T T' : Table key}

theorem Keyed.mem_values_iff (hk : Keyed identity valid m) {r : ρ} :
    r ∈ m.values ↔ m.get? (identity r) = some r := by
  rw [Map.mem_values_iff]
  constructor
  · rintro ⟨k, h⟩
    rw [← (hk k r h).1]
    exact h
  · exact fun h => ⟨_, h⟩

/-- A lookup under a key that names the same records on both sides. -/
theorem SameRows.get?_eq (h : SameRows m T) (hk : Keyed identity valid m) {s : String} {a : κ}
    (hsa : ∀ r, valid r → (identity r = s ↔ key r = a)) : m.get? s = T.lookup a := by
  symm
  apply Table.lookup_ext
  intro r
  rw [h r, hk.mem_values_iff]
  constructor
  · rintro ⟨hr, ha⟩
    rw [← (hsa r (hk _ _ hr).2).mpr ha]
    exact hr
  · intro hr
    obtain ⟨hs, hvalid⟩ := hk _ _ hr
    exact ⟨hs ▸ hr, (hsa r hvalid).mp hs.symm⟩

theorem SameRows.congr (h : SameRows m T) (hT : ∀ a, T'.lookup a = T.lookup a) : SameRows m T' := by
  intro r
  rw [Table.mem_rows_iff, hT, ← Table.mem_rows_iff]
  exact h r

theorem SameRows.set (h : SameRows m T) (hk : Keyed identity valid m) {r : ρ} {k : String}
    (hid : k = identity r)
    (hkey : ∀ r', valid r' → (identity r' = identity r ↔ key r' = key r))
    (hT : ∀ a, T'.lookup a = if a = key r then some r else T.lookup a) : SameRows (m.set k r) T' := by
  intro r'
  subst hid
  rw [Table.mem_rows_iff, hT, Map.mem_values_iff]
  constructor
  · intro hr'
    split at hr'
    · cases hr'
      exact ⟨identity r, Map.get?_set_self _ _ _⟩
    · next hne =>
      have hmem := hk.mem_values_iff.mp ((h r').mp (Table.mem_rows_iff.mpr hr'))
      refine ⟨identity r', ?_⟩
      rw [Map.get?_set_ne fun heq => hne ((hkey r' (hk _ _ hmem).2).mp heq)]
      exact hmem
  · rintro ⟨s, hs⟩
    rw [Map.get?_set] at hs
    split at hs
    · cases hs
      rw [if_pos rfl]
    · next hne =>
      obtain ⟨hs', hvalid⟩ := hk s r' hs
      rw [if_neg fun heq => hne (hs'.trans ((hkey r' hvalid).mpr heq))]
      exact Table.mem_rows_iff.mp ((h r').mpr (Map.mem_values_iff.mpr ⟨s, hs⟩))

/-- An upsert that makes of the stored record the given one. -/
theorem SameRows.put (h : SameRows m T) (hk : Keyed identity valid m) {r : ρ} {u : ρ → Update key}
    (hkey : ∀ r', valid r' → (identity r' = identity r ↔ key r' = key r))
    (hset : ∀ old, m.get? (identity r) = some old → (u r).set old = r) :
    SameRows (m.set (identity r) r) (T.insertOrUpdate r u) := by
  apply h.set hk rfl hkey
  intro a
  rw [Table.lookup_insertOrUpdate]
  split
  · next ha =>
    rw [ha, ← h.get?_eq hk hkey]
    cases hold : m.get? (identity r) with
    | none => rfl
    | some old => exact congrArg some (hset old hold)
  · rfl

section Strings

variable {key : ρ → String} {T T' : Table key} {k : String} {q : ρ → Bool} {u : Update key}

theorem SameRows.get?_key (h : SameRows m T) (hk : Keyed key valid m) (k : String) :
    m.get? k = T.lookup k :=
  h.get?_eq hk fun _ _ => Iff.rfl

/-- An update that hits the record of its key. -/
theorem SameRows.update (h : SameRows m T) (hk : Keyed key valid m) {r r' : ρ}
    (hr : m.get? k = some r) (hq : q r = true) (hset : u.set r = r') :
    SameRows (m.set k r') (T.updateWhere (fun r => key r = k && q r) u) := by
  have hid : k = key r' := by
    rw [← hset, u.key_set]
    exact (hk k r hr).1
  apply h.set hk hid fun _ _ => Iff.rfl
  intro a
  rw [Table.lookup_updateWhere_key, ← hid]
  split
  · next ha => simp [ha, ← h.get?_key hk, hr, hq, hset]
  · rfl

/-- An update that misses the record of its key. -/
theorem SameRows.update_miss (h : SameRows m T) (hk : Keyed key valid m)
    (hq : ∀ r, m.get? k = some r → q r = false) :
    SameRows m (T.updateWhere (fun r => key r = k && q r) u) := by
  apply h.congr
  intro a
  rw [Table.lookup_updateWhere_key]
  split
  · next ha =>
    subst ha
    rw [← h.get?_key hk]
    cases hr : m.get? a with
    | none => rfl
    | some r => simp [hq r hr]
  · rfl

theorem SameRows.delete (h : SameRows m T) (hk : Keyed key valid m)
    (hT : ∀ a, T'.lookup a = if a = k then none else T.lookup a) : SameRows (m.delete k) T' := by
  intro r
  rw [Table.mem_rows_iff, hT, Map.mem_values_iff]
  constructor
  · intro hr
    split at hr
    · cases hr
    · next hne =>
      refine ⟨key r, ?_⟩
      rw [Map.get?_delete, if_neg hne]
      exact hk.mem_values_iff.mp ((h r).mp (Table.mem_rows_iff.mpr hr))
  · rintro ⟨s, hs⟩
    rw [Map.get?_delete] at hs
    split at hs
    · cases hs
    · next hne =>
      rw [if_neg ((hk s r hs).1 ▸ hne)]
      exact Table.mem_rows_iff.mp ((h r).mpr (Map.mem_values_iff.mpr ⟨s, hs⟩))

/-- A deletion that hits the record of its key. -/
theorem SameRows.delete_hit (h : SameRows m T) (hk : Keyed key valid m) {r : ρ}
    (hr : m.get? k = some r) (hq : q r = true) :
    SameRows (m.delete k) (T.deleteWhere fun r => key r = k && q r) := by
  apply h.delete hk
  intro a
  rw [Table.lookup_deleteWhere_key]
  split
  · next ha => simp [ha, ← h.get?_key hk, hr, hq, Option.filter]
  · rfl

end Strings

end SameRows

/-- The two stores hold the same records. -/
structure SameTables (t : StateTables) (db : Database) : Prop where
  installations : SameRows t.installations db.installations
  adoptedRepositories : SameRows t.adoptedRepositories db.adoptedRepositories
  runs : SameRows t.runs db.runs
  idempotencyKeys : SameRows t.idempotencyKeys db.idempotencyKeys
  publications : SameRows t.publications db.publications
  usage : SameRows t.usage db.usage

/-- The two stores hold the same records, which are valid. -/
structure Simulates (payloadOk : String → Bool) (t : StateTables) (db : Database) : Prop where
  ok : TablesOk payloadOk t
  same : SameTables t db

/-! ## Repositories -/

theorem not_slash_of_digits {n : Nat} {s : String} (h : isPositiveDecimal n s = true) :
    '/' ∉ s.toList := by
  intro hmem
  unfold isPositiveDecimal at h
  split at h
  · next hnil =>
    rw [hnil] at hmem
    cases hmem
  · next c cs hcons =>
    rw [hcons] at hmem
    simp only [Bool.and_eq_true, decide_eq_true_eq, all_eq_true] at h
    rcases mem_cons.mp hmem with rfl | hmem
    · exact absurd h.1.1.1 (by decide)
    · exact absurd (h.2 _ hmem) (by decide)

theorem adoptedRepositoryKey_inj {p p' : JobPlatform} {i i' n n' : String} (hi : '/' ∉ i.toList)
    (hi' : '/' ∉ i'.toList) (h : adoptedRepositoryKey p i n = adoptedRepositoryKey p' i' n') :
    p = p' ∧ i = i' ∧ n = n' := by
  have htext := congrArg String.toList h
  have hslash : "/".toList = ['/'] := rfl
  have hname : ∀ p : JobPlatform, ∀ c ∈ p.name.toList, c ≠ '/' := by
    intro p
    cases p with
    | github =>
      show ∀ c ∈ ['g', 'i', 't', 'h', 'u', 'b'], c ≠ '/'
      simp
    | forgejo =>
      show ∀ c ∈ ['f', 'o', 'r', 'g', 'e', 'j', 'o'], c ≠ '/'
      simp
  simp only [adoptedRepositoryKey, String.toList_append, append_assoc, hslash, cons_append,
    nil_append] at htext
  obtain ⟨hp, htext⟩ := block_append_inj (p := (· = '/')) (hname p) (hname p') (by simp) (by simp) htext
  rw [List.cons.injEq] at htext
  obtain ⟨hi, htext⟩ := block_append_inj (p := (· = '/')) (fun c hc heq => hi (heq ▸ hc))
    (fun c hc heq => hi' (heq ▸ hc)) (by simp) (by simp) htext.2
  refine ⟨?_, String.toList_inj.mp hi, ?_⟩
  · revert hp
    cases p <;> cases p' <;> decide
  · simpa [String.toList_inj] using htext

/-- The string key and the primary key name the same repository. -/
theorem repositoryKey_iff {p : JobPlatform} {i n : String} (hi : '/' ∉ i.toList)
    {r : AdoptedRepositoryRecord} (hr : validAdoptedRepository r = true) :
    r.identity = adoptedRepositoryKey p i n ↔ repositoryKey r = (p, i, n) := by
  have hslash : '/' ∉ r.installationId.toList := by
    simp only [validAdoptedRepository, Bool.and_eq_true] at hr
    exact not_slash_of_digits hr.1.1.1.1.1.1
  constructor
  · intro h
    obtain ⟨hp, hi, hn⟩ := adoptedRepositoryKey_inj hslash hi h
    rw [repositoryKey, hp, hi, hn]
  · intro h
    cases h
    rfl

/-! ## Where the two sides agree -/

/-- The error is a conflict. -/
def isConflict (e : Exn) : Bool := e.name = "StateConflictError"

/-- The server takes the text. -/
def isText (s : String) : Bool := !s.toList.contains '\x00'

theorem textParameters_ok (texts : List String) (h : ∀ s ∈ texts, isText s = true) :
    textParameters texts = .ok () := by
  unfold textParameters
  rw [if_neg]
  rw [Bool.not_eq_true, any_eq_false]
  intro s hs
  simpa [isText] using h s hs

/-- The clock of a mutation. -/
def clockOf : StateMutation → Option Value
  | .transitionRun _ _ _ _ _ _ nowMs => some nowMs
  | .claimIdempotency _ _ nowMs _ => some nowMs
  | .releaseIdempotency _ _ nowMs => some nowMs
  | .recordPublicationAttempt _ atMs _ _ => some atMs
  | _ => none

/-- Every mutation of the call that has a finite clock has a non-negative safe integer there. -/
def IntegerClocks : StoreCall → Prop
  | .apply batch =>
    ∀ m ∈ batch, ∀ v ∈ clockOf m, (finite? v).all isSafeNonNegativeInteger = true
  | _ => True

/-- The condition on a mutation, in the state before it. -/
def MutationConforms (payloadOk : String → Bool) (t : StateTables) : StateMutation → Prop
  | .putInstallation v =>
    ∀ r ∈ validateInstallation v, ∀ old ∈ t.installations.get? r.installationId,
      old.createdAtMs = r.createdAtMs
  | .putAdoptedRepository v =>
    ∀ r ∈ validateAdoptedRepository v, ∀ old ∈ t.adoptedRepositories.get? r.identity,
      old.adoptedAtMs = r.adoptedAtMs
  | .transitionRun runId source target head reason job _ =>
    canTransition source target = true → isText runId = true ∧
      ((validateRunPatch head reason job).isSome = true ∨
        ∃ r ∈ t.runs.get? runId, r.state = source)
  | .releaseIdempotency key binding _ =>
    ∀ k ∈ key.string?.filter (· ≠ ""), ∀ b ∈ binding.string?.filter (· ≠ ""),
      isText k = true ∧ isText b = true
  | .putPublication v =>
    ∀ r ∈ validatePublication payloadOk v, ∀ old ∈ t.publications.get? r.jobId,
      old.createdAtMs = r.createdAtMs
  | .recordPublicationAttempt jobId _ outcome _ => (outcome? outcome).isSome = true → isText jobId = true
  | _ => True

/-- The condition on a call: on each mutation of a batch in the state before it, and on the run id of a
lease call that is not refused for its window or its owner. -/
def Conforms (payloadOk : String → Bool) (t : StateTables) : StoreCall → Prop
  | .apply batch => Except.AlongM (applyMutation payloadOk) (MutationConforms payloadOk) t batch
  | .claimRun runId owner nowMs ttlMs | .heartbeatRun runId owner nowMs ttlMs =>
    (validateLeaseWindow nowMs ttlMs).isSome = true → isLeaseOwner owner = true → isText runId = true

/-! ## One mutation -/

section Mutations

variable {payloadOk : String → Bool} {t : StateTables} {db : Database}

theorem agree_putInstallation (h : Simulates payloadOk t db) {v : Value}
    (hv : MutationConforms payloadOk t (.putInstallation v)) :
    Except.Agree isConflict SameTables (applyMutation payloadOk t (.putInstallation v))
      (Postgres.putInstallation db v) := by
  simp only [applyMutation, Postgres.putInstallation]
  cases hr : validateInstallation v with
  | none => rfl
  | some r =>
    have hset : ∀ old, t.installations.get? r.installationId = some old →
        (Postgres.setInstallation r).set old = r := by
      intro old hold
      have hcreated := hv r (by simp [hr]) old (by simp [hold])
      have hid : r.installationId = old.installationId := (h.ok.installations _ _ hold).1
      simp [Postgres.setInstallation, hcreated, ← hid]
    have hrows := h.same.installations.put h.ok.installations (fun _ _ => Iff.rfl) hset
    exact { h.same with installations := hrows }

theorem agree_putAdoptedRepository (h : Simulates payloadOk t db) {v : Value}
    (hv : MutationConforms payloadOk t (.putAdoptedRepository v)) :
    Except.Agree isConflict SameTables (applyMutation payloadOk t (.putAdoptedRepository v))
      (Postgres.putAdoptedRepository db v) := by
  simp only [applyMutation, Postgres.putAdoptedRepository]
  cases hr : validateAdoptedRepository v with
  | none => rfl
  | some r =>
    have hslash : '/' ∉ r.installationId.toList := by
      have hvalid : validAdoptedRepository r = true := valid_of_filter hr
      simp only [validAdoptedRepository, Bool.and_eq_true] at hvalid
      exact not_slash_of_digits hvalid.1.1.1.1.1.1
    have hkey : ∀ r', validAdoptedRepository r' = true →
        (r'.identity = r.identity ↔ repositoryKey r' = repositoryKey r) :=
      fun r' => repositoryKey_iff hslash
    have hset : ∀ old, t.adoptedRepositories.get? r.identity = some old →
        (Postgres.setAdoptedRepository r).set old = r := by
      intro old hold
      have hadopted := hv r (by simp [hr]) old (by simp [hold])
      obtain ⟨hid, hvalid⟩ := h.ok.adoptedRepositories _ _ hold
      have hsame := (hkey old hvalid).mp hid.symm
      simp only [repositoryKey, Prod.mk.injEq] at hsame
      simp [Postgres.setAdoptedRepository, hadopted, hsame]
    have hrows := h.same.adoptedRepositories.put h.ok.adoptedRepositories hkey hset
    exact { h.same with adoptedRepositories := hrows }

theorem agree_putPublication (h : Simulates payloadOk t db) {v : Value}
    (hv : MutationConforms payloadOk t (.putPublication v)) :
    Except.Agree isConflict SameTables (applyMutation payloadOk t (.putPublication v))
      (Postgres.putPublication payloadOk db v) := by
  simp only [applyMutation, Postgres.putPublication]
  cases hr : validatePublication payloadOk v with
  | none => rfl
  | some r =>
    have hset : ∀ old, t.publications.get? r.jobId = some old →
        (Postgres.setPublication r).set old = r := by
      intro old hold
      have hcreated := hv r (by simp [hr]) old (by simp [hold])
      have hid : r.jobId = old.jobId := (h.ok.publications _ _ hold).1
      simp [Postgres.setPublication, hcreated, ← hid]
    have hrows := h.same.publications.put h.ok.publications (fun _ _ => Iff.rfl) hset
    exact { h.same with publications := hrows }

theorem agree_createRun (h : Simulates payloadOk t db) {v : Value} :
    Except.Agree isConflict SameTables (applyMutation payloadOk t (.createRun v))
      (Postgres.createRun db v) := by
  simp only [applyMutation, Postgres.createRun]
  cases hr : validateRun v with
  | none => rfl
  | some r =>
    have hlookup := h.same.runs.get?_key h.ok.runs r.runId
    dsimp only
    cases hinsert : db.runs.insert? r with
    | none =>
      have htaken : t.runs.has r.runId = true := by
        rw [Map.has, hlookup]
        exact Table.insert?_eq_none_iff.mp hinsert
      rw [if_pos htaken]
      rfl
    | some runs =>
      have hfree : ¬ t.runs.has r.runId = true := by
        rw [Map.has, hlookup, ← Table.insert?_eq_none_iff, hinsert]
        simp
      have hrows := h.same.runs.set h.ok.runs rfl (fun _ _ => Iff.rfl) (Table.lookup_insert? hinsert)
      rw [if_neg hfree]
      exact { h.same with runs := hrows }

/-- The `SET` clause of a transition is the transition. -/
theorem setTransition_eq (r : RunRecord) (target : JobLifecycleState) (patch : RunPatch) (nowMs : Number) :
    (Postgres.setTransition target patch nowMs
      (target = .completed ∨ target = .failed ∨ target = .cancelled ∨ target = .superseded)).set r =
      transitioned r target patch nowMs := by
  cases target <;> rfl

theorem agree_transitionRun (h : Simulates payloadOk t db) {runId : String}
    {source target : JobLifecycleState} {head reason job clock : Value}
    (hm : MutationConforms payloadOk t (.transitionRun runId source target head reason job clock)) :
    Except.Agree isConflict SameTables
      (applyMutation payloadOk t (.transitionRun runId source target head reason job clock))
      (Postgres.transitionRun db runId source target head reason job clock) := by
  have hlookup := h.same.runs.get?_key h.ok.runs runId
  simp only [applyMutation, Postgres.transitionRun]
  refine Except.Agree.bind_same fun nowMs _ => ?_
  cases hlegal : canTransition source target with
  | false => rfl
  | true =>
    obtain ⟨htext, hpatch⟩ := hm hlegal
    have hparameters := textParameters_ok [runId] (by simpa using htext)
    have hcount := db.runs.rowCount_key runId fun r => decide (r.state = source)
    have hselect := db.runs.select_eq_key runId
    simp only [Bool.not_true, Bool.false_eq_true, if_false]
    rw [← hlookup] at hcount hselect
    cases hr : t.runs.get? runId with
    | none =>
      obtain ⟨patch, hpatch⟩ : ∃ patch, validateRunPatch head reason job = some patch := by
        simpa [hr, Option.isSome_iff_exists] using hpatch
      simp only [hr, hpatch] at hcount hselect ⊢
      rw [hparameters]
      dsimp only [bind, Except.bind]
      rw [hcount, hselect]
      rfl
    | some r =>
      simp only [hr, Option.any_some] at hcount hselect ⊢
      by_cases hstate : r.state = source
      · cases hpatched : validateRunPatch head reason job with
        | none =>
          simp only [hstate, ne_eq, not_true_eq_false, if_false]
          rfl
        | some patch =>
          simp only [hstate, decide_true, if_true, ne_eq, not_true_eq_false, if_false] at hcount ⊢
          rw [hparameters]
          dsimp only [bind, Except.bind]
          rw [hcount]
          have hrows := h.same.runs.update h.ok.runs (q := fun r => decide (r.state = source)) hr
            (by simpa using hstate) (setTransition_eq r target patch nowMs)
          exact { h.same with runs := hrows }
      · obtain ⟨patch, hpatch⟩ : ∃ patch, validateRunPatch head reason job = some patch := by
          simpa [hr, hstate, Option.isSome_iff_exists] using hpatch
        simp only [hstate, hpatch, decide_false, ne_eq, not_false_eq_true, if_true] at hcount ⊢
        rw [hparameters]
        dsimp only [bind, Except.bind]
        rw [hcount, hselect]
        rfl

theorem safeTime_ok {x : Number} (h : isSafeNonNegativeInteger x = true) :
    Postgres.safeTime x = .ok x := if_pos h

theorem expired_eq (r : IdempotencyKeyRecord) (nowMs : Number) :
    (!(r.expiresAtMs == 0) && decide (r.expiresAtMs ≤ nowMs)) = r.expired nowMs := by
  rw [IdempotencyKeyRecord.expired]

theorem agree_claimIdempotency (h : Simulates payloadOk t db) {key binding clock expiry : Value} :
    Except.Agree isConflict SameTables
      (applyMutation payloadOk t (.claimIdempotency key binding clock expiry))
      (Postgres.claimIdempotency db key binding clock expiry) := by
  simp only [applyMutation, Postgres.claimIdempotency]
  refine Except.Agree.bind_same fun nowMs _ => ?_
  cases (finite? expiry).filter fun x => decide (0 ≤ x) with
  | none => rfl
  | some expiresAtMs =>
  dsimp only
  cases hrecord : validateIdempotencyKey (.object [("key", key), ("binding", binding),
      ("createdAtMs", .number nowMs), ("expiresAtMs", .number expiresAtMs)]) with
  | none => rfl
  | some record =>
  dsimp only
  have hlookup := h.same.idempotencyKeys.get?_key h.ok.idempotencyKeys record.key
  rw [db.idempotencyKeys.select_eq_key record.key, ← hlookup]
  cases hexisting : t.idempotencyKeys.get? record.key with
  | none =>
    cases hinsert : db.idempotencyKeys.insert? record with
    | none =>
      rw [Table.insert?_eq_none_iff, ← hlookup, hexisting] at hinsert
      cases hinsert
    | some keys =>
      have hrows := h.same.idempotencyKeys.set h.ok.idempotencyKeys rfl (fun _ _ => Iff.rfl)
        (Table.lookup_insert? hinsert)
      simp only [Option.toList_none, Table.insertOrNothing, hinsert]
      exact { h.same with idempotencyKeys := hrows }
  | some existing =>
    obtain ⟨hid, hvalid⟩ := h.ok.idempotencyKeys _ _ hexisting
    have htime : isSafeNonNegativeInteger existing.expiresAtMs = true := by
      simp only [validIdempotencyKey, Bool.and_eq_true] at hvalid
      exact hvalid.2
    simp only [Option.toList_some, Postgres.claimStored, safeTime_ok htime, bind, Except.bind, expired_eq]
    by_cases hexpired : existing.expired nowMs = true
    · have hset : (Postgres.setIdempotencyKey record).set existing = record := by
        simp [Postgres.setIdempotencyKey, ← hid]
      have hrows := h.same.idempotencyKeys.update h.ok.idempotencyKeys (q := fun _ => true) hexisting rfl
        hset
      simp only [Bool.and_true] at hrows
      rw [if_pos hexpired, if_pos hexpired]
      exact { h.same with idempotencyKeys := hrows }
    · rw [if_neg hexpired, if_neg hexpired]
      by_cases hbound : existing.binding = record.binding
      · rw [if_pos hbound, if_pos hbound]
        exact h.same
      · rw [if_neg hbound, if_neg hbound]
        rfl

theorem agree_releaseIdempotency (h : Simulates payloadOk t db) {key binding clock : Value}
    (hm : MutationConforms payloadOk t (.releaseIdempotency key binding clock)) :
    Except.Agree isConflict SameTables
      (applyMutation payloadOk t (.releaseIdempotency key binding clock))
      (Postgres.releaseIdempotency db key binding clock) := by
  simp only [applyMutation, Postgres.releaseIdempotency]
  refine Except.Agree.bind_same fun nowMs _ => ?_
  cases hkey : key.string?.filter (· ≠ "") with
  | none => rfl
  | some k =>
  dsimp only
  cases hbinding : binding.string?.filter (· ≠ "") with
  | none => rfl
  | some b =>
  dsimp only
  obtain ⟨hk, hb⟩ := hm k hkey b hbinding
  have hparameters := textParameters_ok [k, b] (by simpa using ⟨hk, hb⟩)
  have hlookup := h.same.idempotencyKeys.get?_key h.ok.idempotencyKeys k
  have hcount := db.idempotencyKeys.rowCount_key k fun r => decide (r.binding = b)
  rw [hparameters, db.idempotencyKeys.select_eq_key k]
  dsimp only [bind, Except.bind]
  rw [hcount, ← hlookup]
  cases hexisting : t.idempotencyKeys.get? k with
  | none => exact h.same
  | some existing =>
    obtain ⟨hid, hvalid⟩ := h.ok.idempotencyKeys _ _ hexisting
    have htime : isSafeNonNegativeInteger existing.expiresAtMs = true := by
      simp only [validIdempotencyKey, Bool.and_eq_true] at hvalid
      exact hvalid.2
    by_cases hown : existing.binding = b
    · have hrows := h.same.idempotencyKeys.delete_hit h.ok.idempotencyKeys
        (q := fun r => decide (r.binding = b)) hexisting (by simpa using hown)
      simp only [Option.any_some, hown, decide_true, if_true, true_or, Nat.lt_one_iff]
      exact { h.same with idempotencyKeys := hrows }
    · simp only [Option.any_some, hown, decide_false, Bool.false_eq_true, if_false, false_or,
        Option.toList_some, safeTime_ok htime, IdempotencyKeyRecord.expired, Nat.lt_irrefl]
      split
      · next hexpired =>
        have hrows := h.same.idempotencyKeys.delete_hit h.ok.idempotencyKeys
          (q := fun r => decide (r.expiresAtMs ≤ nowMs)) hexisting (by
            rw [Bool.and_eq_true] at hexpired
            exact hexpired.2)
        exact { h.same with idempotencyKeys := hrows }
      · rfl

/-- A row whose record is valid is read as itself. -/
theorem mapRow_ok {ρ : Type} {validate : Value → Option ρ} {toValue : ρ → Value} {name : String} {r : ρ}
    (h : validate (toValue r) = some r) : Postgres.mapRow validate toValue name r = .ok r := by
  rw [Postgres.mapRow, h]

theorem mapPublication_ok {r : PublicationRecord} (h : PublicationOk payloadOk r) :
    Postgres.mapPublication payloadOk r = .ok r :=
  mapRow_ok (validatePublication_publicationValue h)

theorem mapUsage_ok {r : UsageRecord} (h : validUsage r = true) : Postgres.mapUsage r = .ok r :=
  mapRow_ok (validateUsage_usageValue h)

theorem readHistoryEntry_atMs {atMs : Number} {outcome detail : Value} {entry : PublicationHistoryEntry}
    (h : validatePublicationHistoryEntry
      (.object [("atMs", .number atMs), ("outcome", outcome), ("detail", detail)]) = some entry) :
    entry.atMs = atMs := by
  obtain ⟨hread, -⟩ := Option.filter_eq_some_iff.mp h
  simp only [readHistoryEntry, Option.bind_eq_bind, Option.bind_eq_some_iff] at hread
  obtain ⟨x, hx, _, -, _, -, hentry⟩ := hread
  cases hx
  cases hentry
  rfl

theorem agree_recordPublicationAttempt (h : Simulates payloadOk t db) {jobId : String}
    {clock outcome detail : Value}
    (hm : MutationConforms payloadOk t (.recordPublicationAttempt jobId clock outcome detail)) :
    Except.Agree isConflict SameTables
      (applyMutation payloadOk t (.recordPublicationAttempt jobId clock outcome detail))
      (Postgres.recordPublicationAttempt payloadOk db jobId clock outcome detail) := by
  simp only [applyMutation, Postgres.recordPublicationAttempt]
  refine Except.Agree.bind_same fun atMs _ => ?_
  cases houtcome : outcome? outcome with
  | none => rfl
  | some _ =>
  have htext := hm (by simp [houtcome])
  have hparameters := textParameters_ok [jobId] (by simpa using htext)
  have hlookup := h.same.publications.get?_key h.ok.publications jobId
  simp only [hparameters, db.publications.select_eq_key jobId, ← hlookup, bind, Except.bind]
  cases hcurrent : t.publications.get? jobId with
  | none => rfl
  | some current =>
  obtain ⟨hid, hvalid⟩ := h.ok.publications _ _ hcurrent
  simp only [Option.toList_some, mapPublication_ok hvalid]
  cases hentry : validatePublicationHistoryEntry
      (.object [("atMs", .number atMs), ("outcome", outcome), ("detail", detail)]) with
  | none => rfl
  | some entry =>
  dsimp only
  cases hnext : validatePublication payloadOk (publicationValue (attempted current entry)) with
  | none => rfl
  | some next =>
  have heq : next = attempted current entry :=
    eq_of_validatePublication (fun e he => by
      rcases mem_append.mp (mem_of_mem_drop he) with he | he
      · exact hvalid.2 e he
      · rw [mem_singleton.mp he]
        exact valid_of_filter hentry) hnext
  have hset : (Postgres.setAttempt next atMs).set current = next := by
    rw [heq, ← readHistoryEntry_atMs hentry]
    rfl
  have hrows := h.same.publications.update h.ok.publications (q := fun _ => true) hcurrent rfl hset
  simp only [Bool.and_true] at hrows
  exact { h.same with publications := hrows }

theorem agree_recordUsage (h : Simulates payloadOk t db) {v : Value} :
    Except.Agree isConflict SameTables (applyMutation payloadOk t (.recordUsage v))
      (Postgres.recordUsage db v) := by
  simp only [applyMutation, Postgres.recordUsage]
  cases hentry : validateUsage v with
  | none => rfl
  | some entry =>
  have hlookup := h.same.usage.get?_key h.ok.usage entry.usageId
  simp only [db.usage.select_eq_key entry.usageId, ← hlookup, Table.insertOrNothing]
  cases hinsert : db.usage.insert? entry with
  | some usage =>
    have hfree : t.usage.get? entry.usageId = none := by
      rw [hlookup, ← Option.not_isSome_iff_eq_none, ← Table.insert?_eq_none_iff, hinsert]
      simp
    have hrows := h.same.usage.set h.ok.usage rfl (fun _ _ => Iff.rfl) (Table.lookup_insert? hinsert)
    simp only [hfree]
    exact { h.same with usage := hrows }
  | none =>
    obtain ⟨existing, hexisting⟩ : ∃ existing, t.usage.get? entry.usageId = some existing := by
      rw [hlookup, ← Option.isSome_iff_exists]
      exact Table.insert?_eq_none_iff.mp hinsert
    have hvalid := (h.ok.usage _ _ hexisting).2
    simp only [hexisting, Option.toList_some, mapUsage_ok hvalid, bind, Except.bind]
    by_cases hsame : existing = entry
    · rw [if_pos hsame, if_pos hsame]
      exact h.same
    · rw [if_neg hsame, if_neg hsame]
      rfl

/-- A mutation that meets the condition goes through on both sides or fails in the same way. -/
theorem agree_applyMutation (h : Simulates payloadOk t db) {m : StateMutation}
    (hclock : ∀ v ∈ clockOf m, (finite? v).all isSafeNonNegativeInteger = true)
    (hm : MutationConforms payloadOk t m) :
    Except.Agree isConflict (Simulates payloadOk) (applyMutation payloadOk t m)
      (Postgres.applyMutation payloadOk db m) := by
  have hsafe : SafeClock m := by
    cases m with
    | transitionRun => exact hclock _ rfl
    | _ => trivial
  suffices hsame : Except.Agree isConflict SameTables (applyMutation payloadOk t m)
      (Postgres.applyMutation payloadOk db m) from
    hsame.strengthen fun t' db' hok hsame => ⟨h.ok.wrote hsafe (wrote_of_ok hok), hsame⟩
  cases m with
  | putInstallation v => exact agree_putInstallation h hm
  | putAdoptedRepository v => exact agree_putAdoptedRepository h hm
  | createRun v => exact agree_createRun h
  | transitionRun runId source target head reason job clock => exact agree_transitionRun h hm
  | claimIdempotency key binding clock expiry => exact agree_claimIdempotency h
  | releaseIdempotency key binding clock => exact agree_releaseIdempotency h hm
  | putPublication v => exact agree_putPublication h hm
  | recordPublicationAttempt jobId clock outcome detail => exact agree_recordPublicationAttempt h hm
  | recordUsage v => exact agree_recordUsage h
  | unknownKind => rfl

/-! ## Leases -/

theorem terminalStatesSql_eq (s : JobLifecycleState) :
    Postgres.terminalStatesSql.contains s = isTerminalState s := by
  cases s <;> rfl

/-- The answers are the same, and the stores stay related. -/
def SameAnswer (payloadOk : String → Bool) (a : Bool × StateTables) (b : Bool × Database) : Prop :=
  a.1 = b.1 ∧ Simulates payloadOk a.2 b.2

theorem not_isNaN_of_safe {x : Number} (h : isSafeNonNegativeInteger x = true) : x.isNaN = false :=
  Number.not_isNaN_of_zero_le (isSafeNonNegativeInteger_iff.mp h).2

theorem safe_leaseExpiresAtMs (h : Simulates payloadOk t db) {runId : String} {r : RunRecord}
    (hr : t.runs.get? runId = some r) : isSafeNonNegativeInteger r.leaseExpiresAtMs = true := by
  have hvalid := (h.ok.runs _ _ hr).2
  simp only [validRun, Bool.and_eq_true] at hvalid
  exact hvalid.1.1.1.1.1.1.1.2

/-- A conditional update of one run hits it exactly when the check of the method lets it through. -/
theorem agree_lease (h : Simulates payloadOk t db) (runId : String) (hit check : RunRecord → Bool)
    (u : Update RunRecord.runId) (next : RunRecord → RunRecord)
    (hhit : ∀ r, t.runs.get? runId = some r → hit r = check r) (hset : ∀ r, u.set r = next r) :
    match t.runs.get? runId with
    | none =>
      db.runs.rowCount (fun r => r.runId = runId && hit r) = 0 ∧
        SameTables t { db with runs := db.runs.updateWhere (fun r => r.runId = runId && hit r) u }
    | some r =>
      if check r then
        db.runs.rowCount (fun r => r.runId = runId && hit r) = 1 ∧
          SameTables { t with runs := t.runs.set runId (next r) }
            { db with runs := db.runs.updateWhere (fun r => r.runId = runId && hit r) u }
      else
        db.runs.rowCount (fun r => r.runId = runId && hit r) = 0 ∧
          SameTables t { db with runs := db.runs.updateWhere (fun r => r.runId = runId && hit r) u } := by
  rw [db.runs.rowCount_key runId, ← h.same.runs.get?_key h.ok.runs runId]
  cases hr : t.runs.get? runId with
  | none =>
    refine ⟨rfl, { h.same with runs := ?_ }⟩
    exact h.same.runs.update_miss h.ok.runs fun r hr' => by
      rw [hr] at hr'
      cases hr'
  | some r =>
    dsimp only
    rw [Option.any_some, hhit r hr]
    cases hcheck : check r with
    | true =>
      have hrows := h.same.runs.update h.ok.runs hr ((hhit r hr).trans hcheck) (hset r)
      exact ⟨rfl, { h.same with runs := hrows }⟩
    | false =>
      refine ⟨rfl, { h.same with runs := ?_ }⟩
      exact h.same.runs.update_miss h.ok.runs fun r' hr' => by
        rw [hr] at hr'
        cases hr'
        exact (hhit r hr).trans hcheck

theorem agree_claimRun (h : Simulates payloadOk t db) {runId owner : String} {nowMs ttlMs : Number}
    (hc : Conforms payloadOk t (.claimRun runId owner nowMs ttlMs)) :
    Except.Agree isConflict (SameAnswer payloadOk) (claimRun t runId owner nowMs ttlMs)
      (Postgres.claimRun db runId owner nowMs ttlMs) := by
  suffices hsame : Except.Agree isConflict (fun a b => a.1 = b.1 ∧ SameTables a.2 b.2)
      (claimRun t runId owner nowMs ttlMs) (Postgres.claimRun db runId owner nowMs ttlMs) from
    hsame.strengthen fun a b hok hab => ⟨hab.1, h.ok.leased (leased_of_claimRun hok), hab.2⟩
  unfold claimRun Postgres.claimRun
  refine Except.Agree.bind_same fun expiry hcheck => ?_
  obtain ⟨hwindow, howner⟩ := checkLease_ok hcheck
  have htext := hc (by simp [hwindow]) howner
  have hparameters := textParameters_ok [runId] (by simpa using htext)
  have hagree := agree_lease h runId
    (fun r => !Postgres.terminalStatesSql.contains r.state && (r.leaseOwner = "" ||
      r.leaseOwner = owner || decide (r.leaseExpiresAtMs ≤ nowMs)))
    (fun r => !isTerminalState r.state && !r.heldByOther owner nowMs)
    (Postgres.setClaim owner expiry nowMs)
    (fun r => { r with leaseOwner := owner, leaseExpiresAtMs := expiry, updatedAtMs := nowMs })
    ?_ fun r => rfl
  · simp only [hparameters, bind, Except.bind]
    cases hr : t.runs.get? runId with
    | none =>
      rw [hr] at hagree
      exact ⟨by rw [hagree.1]; rfl, hagree.2⟩
    | some r =>
      rw [hr] at hagree
      dsimp only at hagree ⊢
      cases hterminal : isTerminalState r.state with
      | true =>
        simp only [hterminal, Bool.not_true, Bool.false_and, Bool.false_eq_true, if_false] at hagree
        exact ⟨by rw [hagree.1]; rfl, hagree.2⟩
      | false =>
        cases hheld : r.heldByOther owner nowMs with
        | true =>
          simp only [hterminal, hheld, Bool.not_true, Bool.and_false, Bool.false_eq_true, if_false] at hagree
          exact ⟨by rw [hagree.1]; rfl, hagree.2⟩
        | false =>
          simp only [hterminal, hheld, Bool.not_false, Bool.and_true, if_true] at hagree
          exact ⟨by rw [hagree.1]; rfl, hagree.2⟩
  · intro r hr
    have hle := Number.le_iff_not_lt (not_isNaN_of_safe (safe_leaseExpiresAtMs h hr))
      (not_isNaN_of_safe (validateLeaseWindow_some hwindow).1)
    simp only [terminalStatesSql_eq, RunRecord.heldByOther, hle]
    grind

/-- On times that are finite, a lease is live when its owner holds it and it has not expired. -/
theorem runLeaseIsLive_eq {r : RunRecord} {owner : String} {nowMs : Number}
    (hnow : nowMs.isFinite = true) (howner : owner ≠ "") (hexpiry : r.leaseExpiresAtMs.isFinite = true) :
    runLeaseIsLive r owner nowMs = (r.leaseOwner = owner && decide (nowMs < r.leaseExpiresAtMs)) := by
  by_cases hheld : r.leaseOwner = owner
  · have hsome : r.leaseOwner ≠ "" := hheld ▸ howner
    simp [runLeaseIsLive, hnow, howner, hexpiry, hheld]
  · simp [runLeaseIsLive, hnow, howner, hheld]

theorem isFinite_of_safe {x : Number} (h : isSafeNonNegativeInteger x = true) : x.isFinite = true :=
  Number.isFinite_of_isSafeInteger (isSafeNonNegativeInteger_iff.mp h).1

theorem agree_heartbeatRun (h : Simulates payloadOk t db) {runId owner : String} {nowMs ttlMs : Number}
    (hc : Conforms payloadOk t (.heartbeatRun runId owner nowMs ttlMs)) :
    Except.Agree isConflict (SameAnswer payloadOk) (heartbeatRun t runId owner nowMs ttlMs)
      (Postgres.heartbeatRun db runId owner nowMs ttlMs) := by
  suffices hsame : Except.Agree isConflict (fun a b => a.1 = b.1 ∧ SameTables a.2 b.2)
      (heartbeatRun t runId owner nowMs ttlMs) (Postgres.heartbeatRun db runId owner nowMs ttlMs) from
    hsame.strengthen fun a b hok hab => ⟨hab.1, h.ok.leased (leased_of_heartbeatRun hok), hab.2⟩
  unfold heartbeatRun Postgres.heartbeatRun
  refine Except.Agree.bind_same fun expiry hcheck => ?_
  obtain ⟨hwindow, howner⟩ := checkLease_ok hcheck
  have htext := hc (by simp [hwindow]) howner
  have hparameters := textParameters_ok [runId] (by simpa using htext)
  have hagree := agree_lease h runId
    (fun r => r.leaseOwner = owner && decide (nowMs < r.leaseExpiresAtMs) &&
      !Postgres.terminalStatesSql.contains r.state)
    (fun r => !isTerminalState r.state && runLeaseIsLive r owner nowMs)
    (Postgres.setHeartbeat expiry nowMs)
    (fun r => { r with leaseExpiresAtMs := expiry, updatedAtMs := nowMs })
    ?_ fun r => rfl
  · simp only [hparameters, bind, Except.bind]
    cases hr : t.runs.get? runId with
    | none =>
      rw [hr] at hagree
      exact ⟨by rw [hagree.1]; rfl, hagree.2⟩
    | some r =>
      rw [hr] at hagree
      dsimp only at hagree ⊢
      cases hterminal : isTerminalState r.state with
      | true =>
        simp only [hterminal, Bool.not_true, Bool.false_and, Bool.false_eq_true, if_false] at hagree
        exact ⟨by rw [hagree.1]; rfl, hagree.2⟩
      | false =>
        cases hlive : runLeaseIsLive r owner nowMs with
        | false =>
          simp only [hterminal, hlive, Bool.and_false, Bool.false_eq_true, if_false] at hagree
          exact ⟨by rw [hagree.1]; rfl, hagree.2⟩
        | true =>
          simp only [hterminal, hlive, Bool.not_false, Bool.and_true, if_true] at hagree
          exact ⟨by rw [hagree.1]; rfl, hagree.2⟩
  · intro r hr
    have hname : owner ≠ "" := by
      rintro rfl
      cases howner
    rw [terminalStatesSql_eq, runLeaseIsLive_eq (isFinite_of_safe (validateLeaseWindow_some hwindow).1)
      hname (isFinite_of_safe (safe_leaseExpiresAtMs h hr)), Bool.and_comm]

theorem agree_perform (h : Simulates payloadOk t db) {c : StoreCall} (hclock : IntegerClocks c)
    (hc : Conforms payloadOk t c) :
    Except.Agree isConflict (SameAnswer payloadOk) (perform payloadOk t c)
      (Postgres.perform payloadOk db c) := by
  cases c with
  | apply batch =>
    have hbatch : Except.Agree isConflict (Simulates payloadOk) (applyBatch payloadOk t batch)
        (batch.foldlM (Postgres.applyMutation payloadOk) db) :=
      Except.Agree.foldlM (f := applyMutation payloadOk)
        (fun _ _ _ h hm => agree_applyMutation h hm.1 hm.2) h (Except.AlongM.and_mem hc hclock)
    exact hbatch.map fun t' db' h' => ⟨rfl, h'⟩
  | claimRun runId owner nowMs ttlMs => exact agree_claimRun h hc
  | heartbeatRun runId owner nowMs ttlMs => exact agree_heartbeatRun h hc

end Mutations

/-! ## Reads -/

/-- The exports hold the same records. -/
structure SameExport (e e' : StateExport) : Prop where
  installations : ∀ r, r ∈ e.installations ↔ r ∈ e'.installations
  adoptedRepositories : ∀ r, r ∈ e.adoptedRepositories ↔ r ∈ e'.adoptedRepositories
  runs : ∀ r, r ∈ e.runs ↔ r ∈ e'.runs
  idempotencyKeys : ∀ r, r ∈ e.idempotencyKeys ↔ r ∈ e'.idempotencyKeys
  publications : ∀ r, r ∈ e.publications ↔ r ∈ e'.publications
  usage : ∀ r, r ∈ e.usage ↔ r ∈ e'.usage

/-- The two stores answer the same reads: those whose arguments are texts and, for a repository, name an
installation without a slash, and the aggregate while its sums are safe integers. -/
structure SameReads (payloadOk : String → Bool) (t : StateTables) (db : Database) : Prop where
  getInstallation : ∀ id, isText id = true → Postgres.getInstallation db id = .ok (getInstallation t id)
  getAdoptedRepository : ∀ platform installationId repoFullName, isText installationId = true →
    isText repoFullName = true → '/' ∉ installationId.toList →
    Postgres.getAdoptedRepository db platform installationId repoFullName =
      .ok (getAdoptedRepository t platform installationId repoFullName)
  getRun : ∀ id, isText id = true → Postgres.getRun db id = .ok (getRun t id)
  getPublication : ∀ id, isText id = true →
    Postgres.getPublication payloadOk db id = .ok (getPublication t id)
  getIdempotencyKey : ∀ key, isText key = true →
    Postgres.getIdempotencyKey db key = .ok (getIdempotencyKey t key)
  aggregateUsage : (exactSums t.usage.values).fits = true →
    ∃ a, Postgres.aggregateUsage db = .ok a ∧ a.totals = (aggregateUsage t).totals ∧
      ∀ row, row ∈ a.rows ↔ row ∈ (aggregateUsage t).rows
  exportState : ∃ e, Postgres.exportState payloadOk db = .ok e ∧ SameExport e (exportState t)

section Reads

variable {payloadOk : String → Bool} {t : StateTables} {db : Database}

/-- A query on the key answers the record of the key. -/
theorem readRow_ok {ρ : Type} {texts : List String} {o : Option ρ} {mapper : ρ → Except Exn ρ}
    (htexts : ∀ s ∈ texts, isText s = true) (hmapper : ∀ r, o = some r → mapper r = .ok r) :
    Postgres.readRow texts o.toList mapper = .ok o := by
  unfold Postgres.readRow
  rw [textParameters_ok _ htexts]
  cases o with
  | none => rfl
  | some r =>
    simp only [Option.toList_some, hmapper r rfl, bind, Except.bind]
    rfl

theorem SameRows.readRow {ρ : Type} {key : ρ → String} {valid : ρ → Prop} {m : Map String ρ}
    {T : Table key} (h : SameRows m T) (hk : Keyed key valid m) {mapper : ρ → Except Exn ρ}
    (hmapper : ∀ r, valid r → mapper r = .ok r) {k : String} (htext : isText k = true) :
    Postgres.readRow [k] (T.select fun r => key r = k) mapper = .ok (m.get? k) := by
  rw [T.select_eq_key k, ← h.get?_key hk]
  exact readRow_ok (by simpa using htext) fun r hr => hmapper r (hk k r hr).2

theorem mapInstallation_ok {r : InstallationRecord} (h : validInstallation r = true) :
    Postgres.mapInstallation r = .ok r :=
  mapRow_ok (validateInstallation_installationValue h)

theorem mapAdoptedRepository_ok {r : AdoptedRepositoryRecord} (h : validAdoptedRepository r = true) :
    Postgres.mapAdoptedRepository r = .ok r :=
  mapRow_ok (validateAdoptedRepository_adoptedRepositoryValue h)

theorem mapRun_ok {r : RunRecord} (h : validRun r = true) : Postgres.mapRun r = .ok r :=
  mapRow_ok (validateRun_runValue h)

theorem mapIdempotencyKey_ok {r : IdempotencyKeyRecord} (h : validIdempotencyKey r = true) :
    Postgres.mapIdempotencyKey r = .ok r :=
  mapRow_ok (validateIdempotencyKey_idempotencyKeyValue h)

theorem getAdoptedRepository_ok (h : Simulates payloadOk t db) {platform : JobPlatform}
    {installationId repoFullName : String} (hi : isText installationId = true)
    (hn : isText repoFullName = true) (hslash : '/' ∉ installationId.toList) :
    Postgres.getAdoptedRepository db platform installationId repoFullName =
      .ok (getAdoptedRepository t platform installationId repoFullName) := by
  have hwhere : (fun r : AdoptedRepositoryRecord => r.platform = platform &&
      r.installationId = installationId && r.repoFullName = repoFullName) =
      fun r => decide (repositoryKey r = (platform, installationId, repoFullName)) := by
    funext r
    simp [repositoryKey, Bool.decide_and, Bool.and_assoc]
  have hlookup := h.same.adoptedRepositories.get?_eq h.ok.adoptedRepositories
    (s := adoptedRepositoryKey platform installationId repoFullName) fun r => repositoryKey_iff hslash
  rw [Postgres.getAdoptedRepository, hwhere, Table.select_eq_key, ← hlookup]
  exact readRow_ok (by simp [hi, hn]) fun r hr =>
    mapAdoptedRepository_ok (h.ok.adoptedRepositories _ _ hr).2

/-- The rows of a table, through their mapper. -/
theorem SameRows.mapM {ρ κ : Type} {key : ρ → κ} {identity : ρ → String} {valid : ρ → Prop}
    {m : Map String ρ} {T : Table key} (h : SameRows m T) (hk : Keyed identity valid m)
    {mapper : ρ → Except Exn ρ} (hmapper : ∀ r, valid r → mapper r = .ok r) :
    T.rows.mapM mapper = .ok T.rows := by
  have hrows : T.rows.mapM mapper = .ok (T.rows.map id) := Except.mapM_ok fun r hr =>
    hmapper r (hk _ _ (hk.mem_values_iff.mp ((h r).mp hr))).2
  rwa [map_id] at hrows

theorem exportState_ok (h : Simulates payloadOk t db) :
    ∃ e, Postgres.exportState payloadOk db = .ok e ∧ SameExport e (exportState t) := by
  refine ⟨⟨db.installations.rows, db.adoptedRepositories.rows, db.runs.rows, db.idempotencyKeys.rows,
    db.publications.rows, db.usage.rows⟩, ?_, ?_⟩
  · simp only [Postgres.exportState,
      h.same.installations.mapM h.ok.installations fun _ => mapInstallation_ok,
      h.same.adoptedRepositories.mapM h.ok.adoptedRepositories fun _ => mapAdoptedRepository_ok,
      h.same.runs.mapM h.ok.runs fun _ => mapRun_ok,
      h.same.idempotencyKeys.mapM h.ok.idempotencyKeys fun _ => mapIdempotencyKey_ok,
      h.same.publications.mapM h.ok.publications fun _ => mapPublication_ok,
      h.same.usage.mapM h.ok.usage fun _ => mapUsage_ok]
    rfl
  · exact ⟨h.same.installations, h.same.adoptedRepositories, h.same.runs, h.same.idempotencyKeys,
      h.same.publications, h.same.usage⟩

/-! ## Usage -/

theorem firstProvenance_mem {ps : List UsageCostProvenance} (h : ps ≠ []) :
    ∃ p ∈ ps, Postgres.firstProvenance ps = some p := by
  cases ps with
  | nil => exact absurd rfl h
  | cons p ps =>
    clear h
    change ∃ p' ∈ p :: ps, ps.foldl _ (some p) = some p'
    induction ps generalizing p with
    | nil => exact ⟨p, mem_cons_self, rfl⟩
    | cons q ps ih =>
      rw [foldl_cons]
      dsimp only
      split
      · obtain ⟨p', hp', heq⟩ := ih q
        exact ⟨p', mem_cons_of_mem _ hp', heq⟩
      · obtain ⟨p', hp', heq⟩ := ih p
        refine ⟨p', ?_, heq⟩
        rcases mem_cons.mp hp' with rfl | hp'
        · exact mem_cons_self
        · exact mem_cons_of_mem _ (mem_cons_of_mem _ hp')

/-- `count(DISTINCT cost_provenance)` and `min(cost_provenance)` tell the provenance of a group. -/
theorem provenance_eq (entries : List UsageRecord) :
    (if 1 < (entries.map (·.costProvenance)).dedup.length then .mixed
      else .source ((Postgres.firstProvenance (entries.map (·.costProvenance))).getD .unknown)) =
      aggregateProvenance entries := by
  cases hentries : entries with
  | nil => rfl
  | cons e rest =>
    rw [← hentries]
    have he : e ∈ entries := hentries ▸ mem_cons_self
    by_cases hall : ∀ e' ∈ entries, e'.costProvenance = e.costProvenance
    · have hps : ∀ p ∈ entries.map (·.costProvenance), p = e.costProvenance := by
        intro p hp
        obtain ⟨e', he', rfl⟩ := mem_map.mp hp
        exact hall e' he'
      have hone : (entries.map (·.costProvenance)).dedup.length ≤ 1 := by
        have hrep := eq_replicate_of_mem fun p hp => hps p (mem_dedup.mp hp)
        have hnodup := nodup_dedup (entries.map (·.costProvenance))
        rw [hrep] at hnodup
        exact nodup_replicate.mp hnodup
      obtain ⟨p, hp, hfirst⟩ := firstProvenance_mem (ne_nil_of_mem (mem_map_of_mem he))
      rw [if_neg (by omega), hfirst, Option.getD_some, hps p hp,
        aggregateProvenance_source (ne_nil_of_mem he) hall]
    · obtain ⟨e', hne⟩ := not_forall.mp hall
      obtain ⟨he', hne⟩ := Classical.not_imp.mp hne
      have htwo : 1 < (entries.map (·.costProvenance)).dedup.length := by
        have hp := mem_dedup.mpr (mem_map_of_mem (f := (·.costProvenance)) he)
        have hp' := mem_dedup.mpr (mem_map_of_mem (f := (·.costProvenance)) he')
        match hdistinct : (entries.map (·.costProvenance)).dedup with
        | [] =>
          rw [hdistinct] at hp
          cases hp
        | [p] =>
          rw [hdistinct, mem_singleton] at hp hp'
          exact absurd (hp'.trans hp.symm) hne
        | _ :: _ :: _ =>
          rw [hdistinct]
          simp
      rw [if_pos htwo, aggregateProvenance_mixed he' he hne]

/-- The sums of a group that fit are answered. -/
theorem bucket_ok {entries : List UsageRecord} (h : (exactSums entries).fits = true) :
    Postgres.bucket entries = .ok (totalsOf entries) := by
  obtain ⟨h1, h2, h3, h4, h5, h6⟩ := fits_iff.mp h
  rw [totalsOf_eq h, ← provenance_eq]
  simp only [Postgres.bucket, Postgres.safeCount, h1, h2, h3, h4, h5, h6, if_true, exactSums, sumsBy]
  rfl

theorem noNul_of_validUsage {r : UsageRecord} (h : validUsage r = true) : NoNul r.route := by
  simp only [validUsage, isIdentifier, Bool.and_eq_true] at h
  have hcontrol := h.1.1.1.2.2
  intro hmem
  simp only [hasControlChar, Bool.not_eq_true', any_eq_false] at hcontrol
  exact absurd (hcontrol _ hmem) (by decide)

theorem perm_usage (h : Simulates payloadOk t db) : db.usage.rows.Perm t.usage.values := by
  have hrows : db.usage.rows.Nodup := List.Nodup.of_map _ db.usage.unique
  have hvalues : t.usage.values.Nodup := by
    apply List.Nodup.of_map (·.usageId)
    rw [h.ok.usage.identities]
    exact t.usage.nodup
  exact (perm_ext_iff_of_nodup hrows hvalues).mpr h.same.usage

theorem aggregateUsage_ok (h : Simulates payloadOk t db)
    (hfits : (exactSums t.usage.values).fits = true) :
    ∃ a, Postgres.aggregateUsage db = .ok a ∧ a.totals = (aggregateUsage t).totals ∧
      ∀ row, row ∈ a.rows ↔ row ∈ (aggregateUsage t).rows := by
  have hperm := perm_usage h
  have hrows : (exactSums db.usage.rows).fits = true := by rwa [exactSums_perm hperm]
  let groups := (db.usage.rows.map fun e => (e.route, e.role)).dedup
  have hgroup : ∀ g ∈ groups,
      (do
        let sums ← Postgres.bucket (db.usage.select fun e => e.route = g.1 && e.role = g.2)
        return { sums with route := g.1, role := g.2.name : UsageAggregateRow } :
          Except Exn UsageAggregateRow) = .ok (rowOf db.usage.rows g.1 g.2) := by
    intro g _
    rw [Table.select, bucket_ok (fits_sublist filter_sublist hrows)]
    rfl
  refine ⟨⟨groups.map fun g => rowOf db.usage.rows g.1 g.2, totalsOf db.usage.rows⟩, ?_,
    (totalsOf_perm hperm hfits).trans (totals_eq hfits).symm, ?_⟩
  · simp only [Postgres.aggregateUsage]
    rw [Except.mapM_ok hgroup, bucket_ok hrows]
    rfl
  · intro row
    have hvalid : ∀ e ∈ t.usage.values, NoNul e.route := fun e he =>
      noNul_of_validUsage (h.ok.usage _ _ (h.ok.usage.mem_values_iff.mp he)).2
    rw [mem_rows_iff hvalid]
    simp only [groups, mem_map, mem_dedup, rowOf_perm hperm hfits]
    constructor
    · rintro ⟨_, ⟨e, he, rfl⟩, rfl⟩
      exact ⟨e, hperm.mem_iff.mp he, rfl⟩
    · rintro ⟨e, he, rfl⟩
      exact ⟨_, ⟨e, hperm.mem_iff.mpr he, rfl⟩, rfl⟩

theorem sameReads (h : Simulates payloadOk t db) : SameReads payloadOk t db where
  getInstallation _ htext :=
    h.same.installations.readRow h.ok.installations (fun _ => mapInstallation_ok) htext
  getAdoptedRepository _ _ _ hi hn hslash := getAdoptedRepository_ok h hi hn hslash
  getRun _ htext := h.same.runs.readRow h.ok.runs (fun _ => mapRun_ok) htext
  getPublication _ htext := h.same.publications.readRow h.ok.publications (fun _ => mapPublication_ok) htext
  getIdempotencyKey _ htext :=
    h.same.idempotencyKeys.readRow h.ok.idempotencyKeys (fun _ => mapIdempotencyKey_ok) htext
  aggregateUsage := aggregateUsage_ok h
  exportState := exportState_ok h

end Reads

/-! ## Runs -/

/-- How a call ends. -/
inductive Outcome where
  | answered (b : Bool)
  | conflict
  | failed
  deriving DecidableEq

def outcomeOf {σ : Type} : Except Exn (Bool × σ) → Outcome
  | .ok (b, _) => .answered b
  | .error e => if isConflict e then .conflict else .failed

/-- How the calls of a run end. -/
def outcomes {σ : Type} (perform : σ → StoreCall → Except Exn (Bool × σ)) (step : σ → StoreCall → σ) :
    σ → List StoreCall → List Outcome
  | _, [] => []
  | s, c :: cs => outcomeOf (perform s c) :: outcomes perform step (step s c) cs

section Runs

variable {payloadOk : String → Bool} {t : StateTables} {db : Database}

theorem outcomeOf_eq {a : Except Exn (Bool × StateTables)} {b : Except Exn (Bool × Database)}
    (h : Except.Agree isConflict (SameAnswer payloadOk) a b) : outcomeOf a = outcomeOf b := by
  cases a <;> cases b <;> simp only [Except.Agree] at h
  · simp only [outcomeOf, h]
  · simp only [outcomeOf, h.1]

theorem simulates_step (h : Simulates payloadOk t db) {c : StoreCall} (hclock : IntegerClocks c)
    (hc : Conforms payloadOk t c) :
    Simulates payloadOk (step payloadOk t c) (Postgres.step payloadOk db c) := by
  have hagree := agree_perform h hclock hc
  unfold step Postgres.step
  cases hmemory : perform payloadOk t c <;> cases hpostgres : Postgres.perform payloadOk db c <;>
    simp only [hmemory, hpostgres, Except.Agree] at hagree ⊢
  · exact h
  · exact hagree.2

theorem simulates_run (h : Simulates payloadOk t db) {calls : List StoreCall}
    (hclock : ∀ c ∈ calls, IntegerClocks c)
    (hc : Machine.Along (step payloadOk) (Conforms payloadOk) t calls) :
    outcomes (perform payloadOk) (step payloadOk) t calls =
        outcomes (Postgres.perform payloadOk) (Postgres.step payloadOk) db calls ∧
      Simulates payloadOk (Machine.run (step payloadOk) t calls)
        (Machine.run (Postgres.step payloadOk) db calls) := by
  induction calls generalizing t db with
  | nil => exact ⟨rfl, h⟩
  | cons c cs ih =>
    have hfirst := hclock c mem_cons_self
    have hnext := simulates_step h hfirst hc.1
    obtain ⟨houtcomes, hrun⟩ := ih hnext (fun c' hc' => hclock c' (mem_cons_of_mem _ hc')) hc.2
    refine ⟨?_, hrun⟩
    rw [outcomes, outcomes, outcomeOf_eq (agree_perform h hfirst hc.1), houtcomes]

theorem simulates_empty (payloadOk : String → Bool) : Simulates payloadOk .empty .empty where
  ok := .empty
  same := by constructor <;> exact fun _ => Iff.rfl

/-- From empty, along every run that meets the condition the two stores answer all calls the same, and after
each of them all reads. -/
theorem conformance (payloadOk : String → Bool) {calls : List StoreCall}
    (hclock : ∀ c ∈ calls, IntegerClocks c)
    (hc : Machine.Along (step payloadOk) (Conforms payloadOk) .empty calls) :
    outcomes (perform payloadOk) (step payloadOk) .empty calls =
        outcomes (Postgres.perform payloadOk) (Postgres.step payloadOk) .empty calls ∧
      ∀ first rest, calls = first ++ rest →
        SameReads payloadOk (Machine.run (step payloadOk) .empty first)
          (Machine.run (Postgres.step payloadOk) .empty first) := by
  refine ⟨(simulates_run (simulates_empty payloadOk) hclock hc).1, ?_⟩
  rintro first rest rfl
  have hfirst : ∀ c ∈ first, IntegerClocks c := fun c hmem => hclock c (mem_append_left _ hmem)
  exact sameReads (simulates_run (simulates_empty payloadOk) hfirst hc.of_append).2

/-- An installation, as put at `createdAtMs`. -/
def installedAt (createdAtMs : Number) : InstallationRecord where
  installationId := "42"
  platform := .github
  profileName := "default"
  accountLogin := "misospace"
  configRef := ""
  createdAtMs := createdAtMs
  updatedAtMs := createdAtMs

/-- An installation is put and, if it is put once more, at `nowMs`. -/
def installedTwice (nowMs : Number) : List StoreCall :=
  [.apply [.putInstallation (installationValue (installedAt 1000))],
   .apply [.putInstallation (installationValue (installedAt nowMs))]]

theorem conformance_installedTwice :
    Machine.Along (step fun _ => true) (Conforms fun _ => true) .empty (installedTwice 1000) ∧
      ∀ first rest, installedTwice 1000 = first ++ rest →
        SameReads (fun _ => true) (Machine.run (step fun _ => true) .empty first)
          (Machine.run (Postgres.step fun _ => true) .empty first) := by
  have hclock : ∀ c ∈ installedTwice 1000, IntegerClocks c := by
    simp [installedTwice, IntegerClocks, clockOf]
  have hc : Machine.Along (step fun _ => true) (Conforms fun _ => true) .empty (installedTwice 1000) := by
    have hvalid : validInstallation (installedAt 1000) = true := by decide +kernel
    have hread := validateInstallation_installationValue hvalid
    have hstored : (Machine.run (step fun _ => true) .empty ((installedTwice 1000).take 1)).installations.get?
        "42" = some (installedAt 1000) := by
      decide +kernel
    refine ⟨?_, ?_, trivial⟩
    · rw [Conforms, Except.alongM_singleton]
      intro r hr old hold
      cases hold
    · rw [Conforms, Except.alongM_singleton]
      intro r hr old hold
      cases hread.symm.trans hr
      cases hstored.symm.trans hold
      rfl
  exact ⟨hc, (conformance (fun _ => true) hclock hc).2⟩

/-- An installation that is put again later: PostgreSQL keeps the first creation time. -/
theorem installedTwice_not_conforms :
    (∀ c ∈ installedTwice 3000, IntegerClocks c) ∧
      Postgres.getInstallation (Machine.run (Postgres.step fun _ => true) .empty (installedTwice 3000)) "42" ≠
        .ok (getInstallation (Machine.run (step fun _ => true) .empty (installedTwice 3000)) "42") := by
  refine ⟨by simp [installedTwice, IntegerClocks, clockOf], ?_⟩
  intro h
  have hkept : (Postgres.getInstallation
      (Machine.run (Postgres.step fun _ => true) .empty (installedTwice 3000)) "42").toOption.join.map
        InstallationRecord.createdAtMs = some 1000 := by
    decide +kernel
  have hreplaced : (getInstallation (Machine.run (step fun _ => true) .empty (installedTwice 3000))
      "42").map InstallationRecord.createdAtMs = some 3000 := by
    decide +kernel
  rw [h, Except.toOption, Option.join_some, hreplaced] at hkept
  exact absurd hkept (by decide)

end Runs

end PrReviewer.State
