import PrReviewer.Credentials.Vault
import PrReviewer.Js.Machine

/-!
# What the vault hands out

Any number of resolutions run at once. A run is a list of events, in any order: a call of `resolve` with the
clock reading of its first part, the answer of a refresh (`null` where it threw) with the clock reading of what
follows, a call of `revoke`. `answers` is what the calls return.
-/

open Js

namespace PrReviewer.Credentials

open InMemorySecretVault

/-! ## Runs -/

/-- A resolution that waits for its refresh. -/
structure Waiting where
  id : Nat
  reference : String
  request : Value

structure World where
  vault : InMemorySecretVault
  waiting : List Waiting

inductive Event where
  | resolve (id : Nat) (reference : String) (request : Value) (now : Instant)
  /-- The refresh of a resolution has answered `fresh`. -/
  | settled (id : Nat) (reference : String) (fresh : Value) (now : Instant)
  | revoke (reference : String)

inductive Answer where
  | resolved (id : Nat) (reference : String) (request : Value) (now : Instant) (result : ResolveResult)
  | revoked (reference : String) (answer : Bool)

def Event.reference : Event → String
  | .resolve _ reference _ _ | .settled _ reference _ _ | .revoke reference => reference

def Answer.reference : Answer → String
  | .resolved _ reference _ _ _ | .revoked reference _ => reference

/-- Whether a waiting resolution is the one of that number and reference. -/
def Waiting.is (id : Nat) (reference : String) (c : Waiting) : Bool :=
  c.id == id && c.reference == reference

namespace World

/-- One event, and the answer it gives. A refresh that nobody waits for is no event of the vault. -/
def react (w : World) : Event → World × Option Answer
  | .resolve id reference request now =>
    match w.vault.resolve reference request now with
    | .answered result => (w, some (.resolved id reference request now result))
    | .refreshing => ({ w with waiting := w.waiting ++ [⟨id, reference, request⟩] }, none)
  | .settled id reference fresh now =>
    match w.waiting.find? (·.is id reference) with
    | none => (w, none)
    | some c =>
      ({ vault := (w.vault.refreshed reference fresh now).2
         waiting := w.waiting.eraseP (·.is id reference) },
        some (.resolved id reference c.request now (w.vault.refreshed reference fresh now).1))
  | .revoke reference =>
    ({ w with vault := (w.vault.revoke reference).2 },
      some (.revoked reference (w.vault.revoke reference).1))

def step (w : World) (e : Event) : World := (w.react e).1

/-- The answers of a run, in their order. -/
def answers (w : World) : List Event → List Answer
  | [] => []
  | e :: es => (w.react e).2.toList ++ answers (w.step e) es

end World

/-- The vault as it was built, with no resolution under way. -/
def InMemorySecretVault.idle (vault : InMemorySecretVault) : World := ⟨vault, []⟩

/-! ## Material and scope -/

/-- A non-empty single line that never expires or expires later than `now` plus the margin. -/
structure Lasting (minRemainingMs : Number) (now : Instant) (material : SecretMaterial) : Prop where
  nonempty : material.value ≠ ""
  line : '\n' ∉ material.value.toList ∧ '\r' ∉ material.value.toList
  lasts : (material.expiresAtMs == 0) = true ∨ now.1 + minRemainingMs < material.expiresAtMs

/-- A request that an entry's scope admits: the same purpose and, on every dimension that is not declared
unscoped, the same non-blank value. -/
structure Fits (scope : SecretScope) (request : ResolutionRequest) : Prop where
  purpose : request.purpose = scope.purpose
  field : ∀ d, d ∉ scope.unscopedDimensions → scope.field d ≠ "" ∧ request.field d = scope.field d

/-- What holds when `material` is handed out for a reference, in the world `w`. -/
structure Handed (entries : List EntryInput) (w : World) (reference : String) (request : Value)
    (now : Instant) (material : SecretMaterial) : Prop where
  live : ∃ record, w.vault.secrets.get? reference = some record ∧ record.revoked = false
  bound : ∃ input ∈ entries, ∃ entry, validateVaultEntry input = .ok entry ∧
    entry.reference = reference ∧
    ∃ read, validateResolutionRequest request = some read ∧ Fits entry.scope read
  lasting : Lasting w.vault.minRemainingMs now material

/-- Every dimension that is not declared unscoped has a value. -/
def SecretScope.Bound (scope : SecretScope) : Prop :=
  ∀ d, d ∉ scope.unscopedDimensions → scope.field d ≠ ""

theorem require_ok {α : Type} {value : Option α} {error : String} {a : α}
    (h : require value error = .ok a) : value = some a := by
  cases value with
  | none => cases h
  | some b => cases h; rfl

variable {v : Value} {scope : SecretScope} {material : SecretMaterial}
  {vault' : InMemorySecretVault}

theorem checkDimension_ok {declared : List ScopeDimension} {d : ScopeDimension} {s : String}
    (h : checkDimension declared d v = .ok s) : v = .string s ∧ (d ∉ declared → s ≠ "") := by
  cases v with
  | string t =>
    simp only [checkDimension, List.contains_iff_mem] at h
    split at h
    · next hmem =>
      split at h
      · cases h
      · cases h
        exact ⟨rfl, fun hnot => absurd hmem hnot⟩
    · split at h
      · cases h
      · next hne =>
        cases h
        exact ⟨rfl, fun _ => hne⟩
  | _ => cases h

theorem isPlatformName_text {p : PlatformName} (h : isPlatformName v = some p) :
    v = .string p.text := by
  cases v with
  | string s =>
    have := List.find?_some h
    simp only [decide_eq_true_eq] at this
    rw [this]
  | _ => cases h

theorem validateScope_bound (h : validateScope v = .ok scope) :
    scope.Bound := by
  obtain ⟨_, -, h⟩ := Except.of_bind_ok h
  obtain ⟨_, -, h⟩ := Except.of_bind_ok h
  obtain ⟨_, -, h⟩ := Except.of_bind_ok h
  obtain ⟨declared, -, h⟩ := Except.of_bind_ok h
  obtain ⟨platform, hname, h⟩ := Except.of_bind_ok h
  obtain ⟨_, hplatform, h⟩ := Except.of_bind_ok h
  obtain ⟨installationId, hinstallation, h⟩ := Except.of_bind_ok h
  obtain ⟨repoFullName, hrepo, h⟩ := Except.of_bind_ok h
  obtain ⟨profileName, hprofile, h⟩ := Except.of_bind_ok h
  obtain ⟨purpose, -, h⟩ := Except.of_bind_ok h
  split at h
  · cases h
  · cases h
    rw [isPlatformName_text (require_ok hname)] at hplatform
    obtain ⟨htext, hplatform⟩ := checkDimension_ok hplatform
    cases htext
    intro d
    cases d with
    | platform => exact hplatform
    | installationId => exact (checkDimension_ok hinstallation).2
    | repoFullName => exact (checkDimension_ok hrepo).2
    | profileName => exact (checkDimension_ok hprofile).2

theorem fits_of_scopeMismatch {request : ResolutionRequest} (hbound : scope.Bound)
    (h : scopeMismatch scope request = "") : Fits scope request := by
  unfold scopeMismatch at h
  split_ifs at h with hpurpose hplatform hinstallation hrepo hprofile
  all_goals first | exact absurd h (by decide) | skip
  refine ⟨(not_not.mp hpurpose).symm, fun d hd => ⟨hbound d hd, ?_⟩⟩
  cases d with
  | platform =>
    exact congrArg PlatformName.text (not_not.mp fun hne => hplatform ⟨hd, hne⟩).symm
  | installationId => exact (not_not.mp fun hne => hinstallation ⟨hd, hne⟩).symm
  | repoFullName => exact (not_not.mp fun hne => hrepo ⟨hd, hne⟩).symm
  | profileName => exact (not_not.mp fun hne => hprofile ⟨hd, hne⟩).symm

/-- Material as `isValidSecretMaterial` accepts it. -/
structure SecretMaterial.Valid (material : SecretMaterial) : Prop where
  nonempty : material.value ≠ ""
  line : '\n' ∉ material.value.toList ∧ '\r' ∉ material.value.toList
  finite : material.expiresAtMs.isFinite = true

theorem valid_of_isValidSecretMaterial
    (h : isValidSecretMaterial v = some material) : material.Valid := by
  unfold isValidSecretMaterial at h
  split at h
  · split at h
    · next hvalid =>
      cases h
      simp only [Bool.and_eq_true, bne_iff_ne, ne_eq, Bool.not_eq_true', List.contains_eq_mem,
        decide_eq_false_iff_not] at hvalid
      exact ⟨hvalid.1.1.1.1, ⟨hvalid.1.1.1.2, hvalid.1.1.2⟩, hvalid.1.2⟩
    · cases h
  · cases h

theorem lasting_of_not_isExpiring {now : Instant} {minRemainingMs : Number}
    (hvalid : material.Valid) (hmargin : minRemainingMs.isFinite = true)
    (h : isExpiring material now.1 minRemainingMs = false) : Lasting minRemainingMs now material := by
  refine ⟨hvalid.nonempty, hvalid.line, ?_⟩
  simp only [isExpiring, bne, Bool.and_eq_false_iff, Bool.not_eq_false', decide_eq_false_iff_not] at h
  refine h.imp_right fun hnot => ?_
  have hsum := Number.not_isNaN_add now.2 hmargin
  have hexpires := Number.not_isNaN_of_isFinite hvalid.finite
  rw [Number.le_iff_not_lt hexpires hsum] at hnot
  exact not_not.mp hnot

theorem isFinite_margin (options : VaultOptions) : options.margin.isFinite = true := by
  have hdefault : defaultMinRemainingMs.isFinite = true := by decide
  have hzero : (0 : Number).isFinite = true := by decide
  unfold VaultOptions.margin
  split
  · split
    · next hx => exact Number.isFinite_mathMax hzero hx
    · exact Number.isFinite_mathMax hzero hdefault
  · exact Number.isFinite_mathMax hzero hdefault

/-! ## What one call does -/

namespace InMemorySecretVault

variable {vault : InMemorySecretVault} {reference : String} {request fresh : Value} {now : Instant}

theorem resolve_ok {material : SecretMaterial}
    (h : vault.resolve reference request now = .answered (.ok material)) :
    ∃ read record, validateResolutionRequest request = some read ∧
      vault.secrets.get? reference = some record ∧ record.revoked = false ∧
      scopeMismatch record.scope read = "" ∧
      isExpiring record.material now.1 vault.minRemainingMs = false ∧ material = record.material := by
  unfold resolve at h
  split at h
  · cases h
  · split at h
    · cases h
    · next read hread =>
      split at h
      · cases h
      · next record hrecord =>
        split at h
        · cases h
        · next hlive =>
          split at h
          · cases h
          · next hscope =>
            split at h
            · split at h <;> cases h
            · next hexpiring =>
              cases h
              exact ⟨read, record, hread, hrecord, by simpa using hlive, not_not.mp hscope,
                by simpa using hexpiring, rfl⟩

theorem resolve_refreshing (h : vault.resolve reference request now = .refreshing) :
    ∃ read record, validateResolutionRequest request = some read ∧
      vault.secrets.get? reference = some record ∧ scopeMismatch record.scope read = "" := by
  unfold resolve at h
  split at h
  · cases h
  · split at h
    · cases h
    · next read hread =>
      split at h
      · cases h
      · next record hrecord =>
        split at h
        · cases h
        · split at h
          · cases h
          · next hscope => exact ⟨read, record, hread, hrecord, not_not.mp hscope⟩

/-- After its `await` a resolution is refused and leaves the vault alone, or it stores what it returns. -/
theorem refreshed_cases (vault : InMemorySecretVault) (reference : String) (fresh : Value)
    (now : Instant) :
    (∃ code reason, vault.refreshed reference fresh now = (.refused code reason, vault)) ∨
    ∃ record material, vault.secrets.get? reference = some record ∧ record.revoked = false ∧
      material.Valid ∧ isExpiring material now.1 vault.minRemainingMs = false ∧
      vault.refreshed reference fresh now = (.ok material,
        { vault with secrets := vault.secrets.set reference { record with material } }) := by
  unfold refreshed
  split
  · exact .inl ⟨_, _, rfl⟩
  · next record hrecord =>
    split
    · exact .inl ⟨_, _, rfl⟩
    · next hrevoked =>
      split
      · exact .inl ⟨_, _, rfl⟩
      · next material hmaterial =>
        split
        · exact .inl ⟨_, _, rfl⟩
        · next hexpiring =>
          exact .inr ⟨record, material, hrecord, by simpa using hrevoked,
            valid_of_isValidSecretMaterial hmaterial, by simpa using hexpiring, rfl⟩

theorem revoke_cases (vault : InMemorySecretVault) (reference : String) :
    vault.revoke reference = (false, vault) ∨
    ∃ record, vault.secrets.get? reference = some record ∧ record.revoked = false ∧
      vault.revoke reference = (true, { vault with
        secrets := vault.secrets.set reference
          { record with material := ⟨"", 0⟩, revoked := true } }) := by
  unfold revoke
  split
  · exact .inl rfl
  · next record hrecord =>
    split
    · exact .inl rfl
    · next hrevoked => exact .inr ⟨record, hrecord, by simpa using hrevoked, rfl⟩

end InMemorySecretVault

/-! ## What one event does -/

/-- A vault after a call on one reference: the same, or with another record there in place of a live one. The
scope stays, and the material is valid unless it is revoked. -/
def Changed (reference : String) (vault vault' : InMemorySecretVault) : Prop :=
  vault' = vault ∨
  ∃ record record', vault.secrets.get? reference = some record ∧ record.revoked = false ∧
    record'.scope = record.scope ∧ (record'.revoked = false → record'.material.Valid) ∧
    vault' = { vault with secrets := vault.secrets.set reference record' }

theorem changed_refreshed (vault : InMemorySecretVault) (reference : String) (fresh : Value)
    (now : Instant) : Changed reference vault (vault.refreshed reference fresh now).2 := by
  rcases refreshed_cases vault reference fresh now with
    ⟨_, _, h⟩ | ⟨record, material, hrecord, hlive, hvalid, -, h⟩
  · exact .inl (by rw [h])
  · exact .inr ⟨record, { record with material }, hrecord, hlive, rfl, fun _ => hvalid, by rw [h]⟩

theorem changed_revoke (vault : InMemorySecretVault) (reference : String) :
    Changed reference vault (vault.revoke reference).2 := by
  rcases revoke_cases vault reference with h | ⟨record, hrecord, hlive, h⟩
  · exact .inl (by rw [h])
  · refine .inr ⟨record, { record with material := ⟨"", 0⟩, revoked := true }, hrecord, hlive, rfl, ?_, by rw [h]⟩
    simp

theorem World.changed_step (w : World) (e : Event) :
    Changed e.reference w.vault (w.step e).vault := by
  cases e with
  | resolve id reference request now =>
    simp only [World.step, World.react]
    split <;> exact .inl rfl
  | settled id reference fresh now =>
    simp only [World.step, World.react]
    split
    · exact .inl rfl
    · exact changed_refreshed w.vault reference fresh now
  | revoke reference => exact changed_revoke w.vault reference

theorem Changed.get?_ne {reference other : String} {vault : InMemorySecretVault}
    (h : Changed reference vault vault') (hne : other ≠ reference) :
    vault'.secrets.get? other = vault.secrets.get? other := by
  rcases h with rfl | ⟨_, _, -, -, -, -, rfl⟩
  · rfl
  · exact Map.get?_set_ne hne

theorem Changed.options {reference : String} {vault : InMemorySecretVault}
    (h : Changed reference vault vault') :
    vault'.refresh = vault.refresh ∧ vault'.minRemainingMs = vault.minRemainingMs := by
  rcases h with rfl | ⟨_, _, -, -, -, -, rfl⟩ <;> exact ⟨rfl, rfl⟩

/-- A record after a call: the one before, or another in place of a live one. -/
theorem Changed.record {reference key : String} {vault vault' : InMemorySecretVault} {record : VaultRecord}
    (h : Changed reference vault vault') (hrecord : vault.secrets.get? key = some record) :
    ∃ record', vault'.secrets.get? key = some record' ∧ record'.scope = record.scope ∧
      (record' = record ∨ record.revoked = false ∧ (record'.revoked = false → record'.material.Valid)) := by
  rcases h with rfl | ⟨old, new, hold, hlive, hscope, hvalid, rfl⟩
  · exact ⟨record, hrecord, rfl, .inl rfl⟩
  · by_cases hkey : key = reference
    · subst hkey
      rw [hold] at hrecord
      cases hrecord
      exact ⟨new, Map.get?_set_self _ _ _, hscope, .inr ⟨hlive, hvalid⟩⟩
    · exact ⟨record, by rw [Map.get?_set_ne hkey, hrecord], rfl, .inl rfl⟩

/-! ## Every run -/

section Runs

variable {entries : List EntryInput} {w : World}

/-- A reference and a record that belong to an accepted entry. -/
def Provisioned (entries : List EntryInput) (reference : String) (scope : SecretScope) : Prop :=
  ∃ input ∈ entries, ∃ entry, validateVaultEntry input = .ok entry ∧ entry.reference = reference ∧
    entry.scope = scope

/-- What holds in every state of a vault with the entries. -/
structure Sound (entries : List EntryInput) (w : World) : Prop where
  record : ∀ reference record, w.vault.secrets.get? reference = some record →
    Provisioned entries reference record.scope ∧ (record.revoked = false → record.material.Valid)
  waiting : ∀ c ∈ w.waiting, ∃ record, w.vault.secrets.get? c.reference = some record ∧
    ∃ read, validateResolutionRequest c.request = some read ∧ scopeMismatch record.scope read = ""
  margin : w.vault.minRemainingMs.isFinite = true

theorem Provisioned.bound {reference : String} {scope : SecretScope}
    (h : Provisioned entries reference scope) : scope.Bound := by
  obtain ⟨input, -, entry, hentry, -, rfl⟩ := h
  obtain ⟨_, -, h⟩ := Except.of_bind_ok hentry
  split at h
  · cases h
  · obtain ⟨scope, hscope, h⟩ := Except.of_bind_ok h
    obtain ⟨_, -, h⟩ := Except.of_bind_ok h
    obtain ⟨_, -, h⟩ := Except.of_bind_ok h
    obtain ⟨_, -, h⟩ := Except.of_bind_ok h
    cases h
    exact validateScope_bound hscope

theorem validateVaultEntry_valid {input : EntryInput} {entry : VaultEntry}
    (h : validateVaultEntry input = .ok entry) : entry.material.Valid := by
  obtain ⟨_, -, h⟩ := Except.of_bind_ok h
  split at h
  · cases h
  · obtain ⟨_, -, h⟩ := Except.of_bind_ok h
    obtain ⟨_, -, h⟩ := Except.of_bind_ok h
    obtain ⟨_, -, h⟩ := Except.of_bind_ok h
    obtain ⟨_, hmaterial, h⟩ := Except.of_bind_ok h
    cases h
    exact valid_of_isValidSecretMaterial (require_ok hmaterial)

variable {options : VaultOptions}

theorem sound_new {vault : InMemorySecretVault}
    (h : InMemorySecretVault.new entries options = .ok vault) : Sound entries vault.idle := by
  unfold InMemorySecretVault.new at h
  split at h
  · cases h
  · obtain ⟨secrets, hsecrets, h⟩ := Except.of_bind_ok h
    cases h
    refine ⟨?_, by simp [idle], isFinite_margin options⟩
    refine Except.foldlM_mem_invariant
      (I := fun secrets => ∀ reference record, secrets.get? reference = some record →
        Provisioned entries reference record.scope ∧ (record.revoked = false → record.material.Valid))
      ?_ (by simp) hsecrets
    intro secrets input hinput secrets' hsound hadd
    obtain ⟨entry, hentry, hadd⟩ := Except.of_bind_ok hadd
    split at hadd
    · cases hadd
    · cases hadd
      intro reference record hrecord
      rw [Map.get?_set] at hrecord
      split at hrecord
      · next hreference =>
        cases hrecord
        exact ⟨⟨input, hinput, entry, hentry, hreference.symm, rfl⟩,
          fun _ => validateVaultEntry_valid hentry⟩
      · exact hsound reference record hrecord

theorem margin_new {vault : InMemorySecretVault}
    (h : InMemorySecretVault.new entries options = .ok vault) :
    vault.idle.vault.minRemainingMs = options.margin := by
  unfold InMemorySecretVault.new at h
  split at h
  · cases h
  · obtain ⟨secrets, -, h⟩ := Except.of_bind_ok h
    cases h
    rfl

theorem Sound.step (hs : Sound entries w) (e : Event) : Sound entries (w.step e) := by
  have hchanged := w.changed_step e
  refine ⟨fun reference record hrecord => ?_, fun c hc => ?_, ?_⟩
  · rcases hchanged with heq | ⟨old, new, hold, -, hscope, hvalid, heq⟩
    · rw [heq] at hrecord
      exact hs.record reference record hrecord
    · rw [heq, Map.get?_set] at hrecord
      split at hrecord
      · next hreference =>
        cases hrecord
        rw [hreference, hscope]
        exact ⟨(hs.record _ old hold).1, hvalid⟩
      · exact hs.record reference record hrecord
  · have hwaited : ∃ record, w.vault.secrets.get? c.reference = some record ∧
        ∃ read, validateResolutionRequest c.request = some read ∧
          scopeMismatch record.scope read = "" := by
      cases e with
      | resolve id reference request now =>
        simp only [World.step, World.react] at hc
        split at hc
        · exact hs.waiting c hc
        · next hrefreshing =>
          rw [List.mem_append, List.mem_singleton] at hc
          rcases hc with hc | rfl
          · exact hs.waiting c hc
          · obtain ⟨read, record, hread, hrecord, hscope⟩ := resolve_refreshing hrefreshing
            exact ⟨record, hrecord, read, hread, hscope⟩
      | settled id reference fresh now =>
        simp only [World.step, World.react] at hc
        split at hc
        · exact hs.waiting c hc
        · exact hs.waiting c (List.mem_of_mem_eraseP hc)
      | revoke reference => exact hs.waiting c hc
    obtain ⟨record, hrecord, read, hread, hscope⟩ := hwaited
    obtain ⟨record', hrecord', hscope', -⟩ := hchanged.record hrecord
    exact ⟨record', hrecord', read, hread, by rw [hscope', hscope]⟩
  · rw [hchanged.options.2]
    exact hs.margin

theorem sound_run {options : VaultOptions} {vault : InMemorySecretVault}
    (h : InMemorySecretVault.new entries options = .ok vault) (events : List Event) :
    Sound entries (Machine.run World.step vault.idle events) :=
  Machine.invariant (fun _ e hs => hs.step e) (sound_new h) events

/-- Material is handed out for a live reference, to a request that its scope admits, while it lasts. -/
theorem Sound.handed (hs : Sound entries w) {e : Event} {id : Nat} {reference : String} {request : Value}
    {now : Instant} {material : SecretMaterial}
    (h : (w.react e).2 = some (.resolved id reference request now (.ok material))) :
    Handed entries (w.step e) reference request now material := by
  cases e with
  | resolve id' reference' request' now' =>
    simp only [World.step]
    simp only [World.react] at h ⊢
    split at h
    · next result hresult =>
      cases h
      obtain ⟨read, record, hread, hrecord, hlive, hscope, hexpiring, rfl⟩ := resolve_ok hresult
      obtain ⟨hprovisioned, hvalid⟩ := hs.record _ _ hrecord
      have hfits := fits_of_scopeMismatch hprovisioned.bound hscope
      obtain ⟨input, hinput, entry, hentry, hreference, hentryScope⟩ := hprovisioned
      exact ⟨⟨record, hrecord, hlive⟩,
        ⟨input, hinput, entry, hentry, hreference, read, hread, hentryScope ▸ hfits⟩,
        lasting_of_not_isExpiring (hvalid hlive) hs.margin hexpiring⟩
    · cases h
  | settled id' reference' fresh now' =>
    simp only [World.step]
    simp only [World.react] at h ⊢
    split at h
    · cases h
    · next c hfind =>
      obtain ⟨hc, hmem⟩ : Waiting.is id' reference' c = true ∧ c ∈ w.waiting :=
        ⟨List.find?_some hfind, List.mem_of_find?_eq_some hfind⟩
      obtain rfl : c.reference = reference' := by
        simp only [Waiting.is, Bool.and_eq_true, beq_iff_eq] at hc
        exact hc.2
      rcases refreshed_cases w.vault c.reference fresh now' with
        ⟨_, _, hrefused⟩ | ⟨record, material', hrecord, hlive, hvalid, hexpiring, hstored⟩
      · rw [hrefused] at h
        cases h
      · simp only [hstored] at h ⊢
        cases h
        obtain ⟨record', hrecord', read, hread, hscope⟩ := hs.waiting c hmem
        obtain rfl : record = record' := Option.some.inj (hrecord.symm.trans hrecord')
        obtain ⟨hprovisioned, -⟩ := hs.record _ _ hrecord
        have hfits := fits_of_scopeMismatch hprovisioned.bound hscope
        obtain ⟨input, hinput, entry, hentry, hreference, hentryScope⟩ := hprovisioned
        exact ⟨⟨{ record with material }, Map.get?_set_self _ _ _, hlive⟩,
          ⟨input, hinput, entry, hentry, hreference, read, hread, hentryScope ▸ hfits⟩,
          lasting_of_not_isExpiring hvalid hs.margin hexpiring⟩
  | revoke reference' => cases h

/-- A resolution up to its answer or its `await` keeps the vault. -/
theorem resolve_vault (w : World) (id : Nat) (reference : String) (request : Value) (now : Instant) :
    (w.step (.resolve id reference request now)).vault = w.vault := by
  simp only [World.step, World.react]
  split <;> rfl

/-- A refusal keeps the vault. -/
theorem refused_vault (w : World) (e : Event) {id : Nat} {reference : String} {request : Value}
    {now : Instant} {code : ResolutionRefusalCode} {reason : String}
    (h : (w.react e).2 = some (.resolved id reference request now (.refused code reason))) :
    (w.step e).vault = w.vault := by
  cases e with
  | resolve id' reference' request' now' => exact resolve_vault w id' reference' request' now'
  | settled id' reference' fresh now' =>
    simp only [World.step]
    simp only [World.react] at h ⊢
    split at h
    · rfl
    · rcases refreshed_cases w.vault reference' fresh now' with
        ⟨_, _, hrefused⟩ | ⟨record, material, -, -, -, -, hstored⟩
      · rw [hrefused]
      · rw [hstored] at h
        cases h
  | revoke reference' => cases h

/-! ### Revocation -/

/-- The reference is revoked. -/
def World.Dead (w : World) (reference : String) : Prop :=
  ∃ record, w.vault.secrets.get? reference = some record ∧ record.revoked = true

theorem World.Dead.step {reference : String} (h : w.Dead reference) (e : Event) :
    (w.step e).Dead reference := by
  obtain ⟨record, hrecord, hdead⟩ := h
  obtain ⟨record', hrecord', -, rfl | ⟨hlive, -⟩⟩ := (w.changed_step e).record hrecord
  · exact ⟨record', hrecord', hdead⟩
  · rw [hdead] at hlive
    cases hlive

/-- `resolve` handed out material, or `revoke` returned `true`. -/
def Answer.Grants : Answer → Prop
  | .resolved _ _ _ _ (.ok _) => True
  | .revoked _ true => True
  | _ => False

theorem World.Dead.react {reference : String} (h : w.Dead reference) (e : Event) :
    ∀ a, (w.react e).2 = some a → a.reference = reference → ¬a.Grants := by
  obtain ⟨record, hrecord, hdead⟩ := h
  have hnone : ∀ record', w.vault.secrets.get? reference = some record' →
      record'.revoked ≠ false := by
    intro record' hrecord' hlive
    rw [hrecord] at hrecord'
    cases hrecord'
    rw [hdead] at hlive
    cases hlive
  intro a ha hreference hgrants
  cases e with
  | resolve id reference' request now =>
    simp only [World.react] at ha
    split at ha
    · next result hresult =>
      cases ha
      cases hreference
      cases result with
      | ok material =>
        obtain ⟨_, record', -, hrecord', hlive, -⟩ := resolve_ok hresult
        exact hnone record' hrecord' hlive
      | refused code reason => exact hgrants
    · cases ha
  | settled id reference' fresh now =>
    simp only [World.react] at ha
    split at ha
    · cases ha
    · cases ha
      cases hreference
      rcases refreshed_cases w.vault reference' fresh now with
        ⟨_, _, hrefused⟩ | ⟨record', _, hrecord', hlive, -⟩
      · rw [hrefused] at hgrants
        exact hgrants
      · exact hnone record' hrecord' hlive
  | revoke reference' =>
    cases ha
    cases hreference
    rcases revoke_cases w.vault reference' with hfalse | ⟨record', hrecord', hlive, -⟩
    · rw [hfalse] at hgrants
      exact hgrants
    · exact hnone record' hrecord' hlive

/-- Nothing is granted any more for a revoked reference. -/
theorem World.Dead.answers {reference : String} {events : List Event} (h : w.Dead reference) :
    ∀ a ∈ w.answers events, a.reference = reference → ¬a.Grants := by
  induction events generalizing w with
  | nil => simp [World.answers]
  | cons e es ih =>
    intro a ha
    rw [World.answers, List.mem_append, Option.mem_toList] at ha
    rcases ha with ha | ha
    · exact h.react e a ha
    · exact ih (h.step e) a ha

theorem dead_of_revoked {reference : String}
    (h : (w.react (.revoke reference)).2 = some (.revoked reference true)) :
    (w.step (.revoke reference)).Dead reference := by
  simp only [World.react] at h
  simp only [World.step, World.react, World.Dead]
  rcases revoke_cases w.vault reference with hfalse | ⟨record, hrecord, -, htrue⟩
  · rw [hfalse] at h
    cases h
  · rw [htrue]
    exact ⟨_, Map.get?_set_self _ _ _, rfl⟩

/-! ### One reference among others -/

/-- Two worlds that are the same as far as one reference goes. -/
structure World.Agree (reference : String) (w w' : World) : Prop where
  record : w.vault.secrets.get? reference = w'.vault.secrets.get? reference
  refresh : w.vault.refresh = w'.vault.refresh
  margin : w.vault.minRemainingMs = w'.vault.minRemainingMs
  waiting : w.waiting.filter (·.reference = reference) = w'.waiting.filter (·.reference = reference)

variable {w' : World} {reference : String}

theorem World.Agree.refl : World.Agree reference w w := ⟨rfl, rfl, rfl, rfl⟩

theorem find?_waiting (id : Nat) (reference : String) (cs : List Waiting) :
    cs.find? (·.is id reference) = (cs.filter (·.reference = reference)).find? (·.is id reference) := by
  rw [List.find?_filter]
  congr 1
  funext c
  by_cases hc : c.reference = reference <;> simp [Waiting.is, hc, beq_eq_decide]

theorem filter_eraseP_waiting (id : Nat) (reference : String) (cs : List Waiting) :
    (cs.eraseP (·.is id reference)).filter (·.reference = reference) =
      (cs.filter (·.reference = reference)).eraseP (·.is id reference) := by
  induction cs with
  | nil => rfl
  | cons c cs ih =>
    by_cases hc : c.reference = reference
    · by_cases hid : c.is id reference = true
      · simp [hid, hc]
      · simp [hid, hc, ih]
    · have hid : c.is id reference = false := by simp [Waiting.is, hc]
      simp [hid, hc, ih]

theorem filter_eraseP_waiting_ne {other : String} (id : Nat) (hne : other ≠ reference)
    (cs : List Waiting) :
    (cs.eraseP (·.is id other)).filter (·.reference = reference) =
      cs.filter (·.reference = reference) := by
  induction cs with
  | nil => rfl
  | cons c cs ih =>
    by_cases hid : c.is id other = true
    · have hc : c.reference ≠ reference := by
        simp only [Waiting.is, Bool.and_eq_true, beq_iff_eq] at hid
        rw [hid.2]
        exact hne
      simp [hid, hc]
    · simp [hid, List.filter_cons, ih]

theorem World.Agree.resolve (h : World.Agree reference w w') (request : Value) (now : Instant) :
    w.vault.resolve reference request now = w'.vault.resolve reference request now := by
  simp only [InMemorySecretVault.resolve, h.record, h.refresh, h.margin]

/-- What a resolution of the reference answers after its `await`, and the record that it leaves. -/
theorem World.Agree.refreshed (h : World.Agree reference w w') (fresh : Value) (now : Instant) :
    (w.vault.refreshed reference fresh now).1 = (w'.vault.refreshed reference fresh now).1 ∧
    (w.vault.refreshed reference fresh now).2.secrets.get? reference =
      (w'.vault.refreshed reference fresh now).2.secrets.get? reference := by
  simp only [InMemorySecretVault.refreshed, h.record, h.margin]
  split
  · exact ⟨rfl, h.record⟩
  · split
    · exact ⟨rfl, h.record⟩
    · split
      · exact ⟨rfl, h.record⟩
      · split
        · exact ⟨rfl, h.record⟩
        · simp

theorem World.Agree.revoke (h : World.Agree reference w w') :
    (w.vault.revoke reference).1 = (w'.vault.revoke reference).1 ∧
    (w.vault.revoke reference).2.secrets.get? reference =
      (w'.vault.revoke reference).2.secrets.get? reference := by
  simp only [InMemorySecretVault.revoke, h.record]
  split
  · exact ⟨rfl, h.record⟩
  · split
    · exact ⟨rfl, h.record⟩
    · simp

/-- An event of the reference gives the same answer in both worlds, and they stay the same. -/
theorem World.Agree.own (h : World.Agree reference w w') {e : Event} (he : e.reference = reference) :
    (w.react e).2 = (w'.react e).2 ∧ World.Agree reference (w.step e) (w'.step e) := by
  have hrefresh := (w.changed_step e).options.1.trans (h.refresh.trans (w'.changed_step e).options.1.symm)
  have hmargin := (w.changed_step e).options.2.trans (h.margin.trans (w'.changed_step e).options.2.symm)
  cases e with
  | resolve id own request now =>
    obtain rfl : own = reference := he
    have hsame := h.resolve request now
    cases hresolve : w.vault.resolve own request now with
    | answered result =>
      simp only [World.step, World.react, ← hsame, hresolve]
      exact ⟨trivial, h⟩
    | refreshing =>
      simp only [World.step, World.react, ← hsame, hresolve]
      exact ⟨trivial, h.record, h.refresh, h.margin, by simp [h.waiting]⟩
  | settled id own fresh now =>
    obtain rfl : own = reference := he
    have hfind : w'.waiting.find? (·.is id own) = w.waiting.find? (·.is id own) := by
      rw [find?_waiting, ← h.waiting, ← find?_waiting]
    cases hc : w.waiting.find? (·.is id own) with
    | none =>
      simp only [World.step, World.react, hfind, hc]
      exact ⟨trivial, h⟩
    | some c =>
      obtain ⟨hanswer, hrecord⟩ := h.refreshed fresh now
      simp only [World.step, World.react, hfind, hc] at hrefresh hmargin ⊢
      refine ⟨by rw [hanswer], hrecord, hrefresh, hmargin, ?_⟩
      rw [filter_eraseP_waiting, filter_eraseP_waiting, h.waiting]
  | revoke own =>
    obtain rfl : own = reference := he
    obtain ⟨hanswer, hrecord⟩ := World.Agree.revoke h
    exact ⟨by simp only [World.react, hanswer], hrecord, hrefresh, hmargin, h.waiting⟩

/-- An event of another reference does not show. -/
theorem World.Agree.other (h : World.Agree reference w w') {e : Event} (he : e.reference ≠ reference) :
    (∀ a, (w.react e).2 = some a → a.reference ≠ reference) ∧ World.Agree reference (w.step e) w' := by
  have hchanged := w.changed_step e
  have hrecord := hchanged.get?_ne he.symm
  obtain ⟨hrefresh, hmargin⟩ := hchanged.options
  suffices hrest : (∀ a, (w.react e).2 = some a → a.reference = e.reference) ∧
      (w.step e).waiting.filter (·.reference = reference) = w.waiting.filter (·.reference = reference) from
    ⟨fun a ha => hrest.1 a ha ▸ he, hrecord.trans h.record, hrefresh.trans h.refresh,
      hmargin.trans h.margin, hrest.2.trans h.waiting⟩
  cases e with
  | resolve id other request now =>
    simp only [World.step, World.react]
    split
    · exact ⟨by rintro a ⟨⟩; rfl, rfl⟩
    · simp only [Event.reference] at he
      exact ⟨nofun, by simp [he]⟩
  | settled id other fresh now =>
    simp only [World.step, World.react]
    split
    · exact ⟨nofun, rfl⟩
    · exact ⟨by rintro a ⟨⟩; rfl, filter_eraseP_waiting_ne id he w.waiting⟩
  | revoke other => exact ⟨by rintro a ⟨⟩; rfl, rfl⟩

/-- The answers for a reference are those of the run of its own events. -/
theorem answers_filter (h : World.Agree reference w w') (events : List Event) :
    (w.answers events).filter (·.reference = reference) =
      (w'.answers (events.filter (·.reference = reference))).filter (·.reference = reference) := by
  induction events generalizing w w' with
  | nil => rfl
  | cons e es ih =>
    by_cases he : e.reference = reference
    · obtain ⟨hanswer, hagree⟩ := h.own he
      rw [List.filter_cons_of_pos (by simpa using he), World.answers, World.answers, List.filter_append,
        List.filter_append, hanswer, ih hagree]
    · obtain ⟨hanswer, hagree⟩ := h.other he
      have hnone : (w.react e).2.toList.filter (·.reference = reference) = [] := by
        rw [List.filter_eq_nil_iff]
        intro a ha
        simpa using hanswer a (Option.mem_toList.mp ha)
      rw [List.filter_cons_of_neg (by simpa using he), World.answers, List.filter_append, hnone,
        List.nil_append, ih hagree]

end Runs

/-! ## Custody -/

/-- For every accepted list of entries, every clock and every order of calls and refreshes (`events`, then
`e`, then `later`): material that `e` hands out is live, bound and lasting there; once `revoke` has answered
`true` nothing is granted for the reference; a resolution keeps the vault before its `await`, and after it when it
is refused; and the answers for a reference are
those of its own events alone. -/
theorem custody {entries : List EntryInput} {options : VaultOptions} {vault : InMemorySecretVault}
    (h : InMemorySecretVault.new entries options = .ok vault) (events : List Event) (e : Event)
    (later : List Event) :
    let w := Machine.run World.step vault.idle events
    (∀ id reference request now material,
      (w.react e).2 = some (.resolved id reference request now (.ok material)) →
      (w.step e).vault.minRemainingMs = options.margin ∧
      Handed entries (w.step e) reference request now material) ∧
    (∀ reference, (w.react (.revoke reference)).2 = some (.revoked reference true) →
      ∀ a ∈ (w.step (.revoke reference)).answers later, a.reference = reference → ¬a.Grants) ∧
    (∀ id reference request now, (w.step (.resolve id reference request now)).vault = w.vault) ∧
    (∀ id reference request now code reason,
      (w.react e).2 = some (.resolved id reference request now (.refused code reason)) →
      (w.step e).vault = w.vault) ∧
    ∀ reference, (vault.idle.answers events).filter (·.reference = reference) =
      (vault.idle.answers (events.filter (·.reference = reference))).filter
        (·.reference = reference) := by
  have hmargin : (Machine.run World.step vault.idle events).vault.minRemainingMs = options.margin :=
    Machine.invariant (I := fun w : World => w.vault.minRemainingMs = options.margin)
      (fun w e hw => (w.changed_step e).options.2.trans hw) (margin_new h) events
  exact ⟨fun id reference request now material hok =>
      ⟨((World.changed_step _ e).options.2).trans hmargin, (sound_run h events).handed hok⟩,
    fun reference hrevoked => (dead_of_revoked hrevoked).answers,
    fun id reference request now => resolve_vault _ id reference request now,
    fun id reference request now code reason => refused_vault _ e,
    fun reference => answers_filter .refl events⟩

/-- A token for the clones of a repository, which expires at 2000. -/
def cloneToken : EntryInput where
  reference := "forge-installation-token"
  scope := .object [("platform", .string "github"), ("installationId", .string "1001"),
    ("repoFullName", .string "owner/repo-a"), ("profileName", .string ""),
    ("purpose", .string "forge_clone"), ("unscopedDimensions", .array [.string "profileName"])]
  material := .object [("value", .string "ghs_secretvalue000000000001"), ("expiresAtMs", .number 2000)]
  others := []

def cloneRequest : Value :=
  .object [("purpose", .string "forge_clone"), ("platform", .string "github"),
    ("installationId", .string "1001"), ("repoFullName", .string "owner/repo-a"),
    ("profileName", .string "")]

/-- A token that expires at 3603000. -/
def freshToken : Value :=
  .object [("value", .string "ghs_refreshedvalue0000000001"), ("expiresAtMs", .number 3603000)]

/-- At 3000 the token is refreshed; what is handed out is the fresh one. -/
theorem custody_refreshed :
    ∃ vault, InMemorySecretVault.new [cloneToken] ⟨true, .undefined⟩ = .ok vault ∧
      Handed [cloneToken]
        (Machine.run World.step vault.idle
          [.resolve 0 "forge-installation-token" cloneRequest ⟨3000, by decide⟩,
            .settled 0 "forge-installation-token" freshToken ⟨3000, by decide⟩])
        "forge-installation-token" cloneRequest ⟨3000, by decide⟩
        ⟨"ghs_refreshedvalue0000000001", 3603000⟩ := by
  obtain ⟨vault, hvault⟩ : ∃ vault,
      InMemorySecretVault.new [cloneToken] ⟨true, .undefined⟩ = .ok vault := ⟨_, rfl⟩
  have hcustody := custody hvault [.resolve 0 "forge-installation-token" cloneRequest ⟨3000, by decide⟩]
    (.settled 0 "forge-installation-token" freshToken ⟨3000, by decide⟩) []
  refine ⟨vault, hvault, (hcustody.1 0 _ _ _ _ ?_).2⟩
  cases hvault
  rfl

end PrReviewer.Credentials
