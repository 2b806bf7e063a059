import PrReviewer.Js.Cut
import PrReviewer.Js.Lines
import PrReviewer.Js.NumberText
import PrReviewer.Jobs.Generation
import PrReviewer.Queue.Store

/-!
# The identity of a job

The text that is hashed is one line for each field of the identity, and no value holds a line break.
-/

open Js List

namespace PrReviewer.Jobs

open Queue (ReviewJob ReviewJobKind validJob isTokenOrEmpty isShaOrEmpty isSafeNonNegative isDisplayName)
open Events (CanonicalForgeEvent ForgeEventKind)

/-! ## Lines -/

/-- The line of a field. -/
def lineOf (field : String × String) : String := field.1 ++ "=" ++ field.2 ++ "\n"

/-- Fields of the same names whose values hold no line break have the same lines only if they are the same. -/
theorem lines_inj {fields fields' : List (String × String)} (hnames : fields.map (·.1) = fields'.map (·.1))
    (h : ∀ f ∈ fields, '\n' ∉ f.2.toList) (h' : ∀ f ∈ fields', '\n' ∉ f.2.toList)
    (hlines : String.join (fields.map lineOf) = String.join (fields'.map lineOf)) : fields = fields' := by
  induction fields generalizing fields' with
  | nil => simpa using hnames
  | cons f fs ih =>
    cases fields' with
    | nil => cases hnames
    | cons g gs =>
      rw [map_cons, map_cons, List.cons.injEq] at hnames
      rw [map_cons, map_cons, String.join_cons, String.join_cons,
        ← String.toList_inj] at hlines
      simp only [lineOf, hnames.1, String.toList_append, append_assoc, append_cancel_left_eq] at hlines
      have hbreak : "\n".toList = ['\n'] := rfl
      rw [hbreak, singleton_append, singleton_append] at hlines
      obtain ⟨hvalue, hrest⟩ := append_sep_inj (h f mem_cons_self) (h' g mem_cons_self) hlines
      have htail := ih hnames.2 (fun f hf => h f (mem_cons_of_mem _ hf))
        (fun g hg => h' g (mem_cons_of_mem _ hg)) (String.toList_inj.mp hrest)
      have hhead : f = g := Prod.ext hnames.1 (String.toList_inj.mp hvalue)
      rw [hhead, htail]

/-! ## The identity -/

/-- The identity fields of a job. -/
def identityOf (job : ReviewJob) : GenerationIdentity where
  platform := job.platform
  installationId := job.installationId
  repoFullName := job.repoFullName
  prNumber := job.prNumber
  prId := job.prId
  headSha := job.headSha
  baseSha := job.baseSha
  configFingerprint := job.configFingerprint
  kind := job.kind
  nonce := job.nonce
  adoptionEpoch := job.adoptionEpoch
  eventReference := job.eventReference
  forgeIntegration := job.forgeIntegration

/-- The fields are `===`, one by one. -/
structure SameIdentity (i j : GenerationIdentity) : Prop where
  platform : i.platform = j.platform
  installationId : i.installationId = j.installationId
  repoFullName : i.repoFullName = j.repoFullName
  prNumber : (i.prNumber == j.prNumber) = true
  prId : (i.prId == j.prId) = true
  headSha : i.headSha = j.headSha
  baseSha : i.baseSha = j.baseSha
  configFingerprint : i.configFingerprint = j.configFingerprint
  kind : i.kind = j.kind
  nonce : i.nonce = j.nonce
  adoptionEpoch : i.adoptionEpoch = j.adoptionEpoch
  eventReference : i.eventReference = j.eventReference
  forgeIntegration : i.forgeIntegration = j.forgeIntegration

/-- No value holds a line break, and the numbers are safe integers from 0 on. -/
structure IsIdentity (i : GenerationIdentity) : Prop where
  lines : ∀ f ∈ i.fields, '\n' ∉ f.2.toList
  prNumber : Number.isSafeInteger i.prNumber = true ∧ 0 ≤ i.prNumber
  prId : Number.isSafeInteger i.prId = true ∧ 0 ≤ i.prId

theorem platform_name_injective : Function.Injective Queue.JobPlatform.name := by
  intro p p' h
  cases p <;> cases p' <;> first | rfl | exact absurd h (by decide)

theorem kind_name_injective : Function.Injective ReviewJobKind.name := by
  intro k k' h
  cases k <;> cases k' <;> first | rfl | exact absurd h (by decide)

variable {i j : GenerationIdentity} {value : Value}

theorem fields_inj (hi : IsIdentity i) (hj : IsIdentity j) :
    i.fields = j.fields ↔ SameIdentity i j := by
  have hnumber := Number.numberToString_eq_iff (Number.isFinite_of_isSafeInteger hi.prNumber.1)
    (Number.isFinite_of_isSafeInteger hj.prNumber.1)
  have hid := Number.numberToString_eq_iff (Number.isFinite_of_isSafeInteger hi.prId.1)
    (Number.isFinite_of_isSafeInteger hj.prId.1)
  simp only [GenerationIdentity.fields, List.cons.injEq, Prod.mk.injEq, true_and, and_true, hnumber, hid,
    platform_name_injective.eq_iff, kind_name_injective.eq_iff]
  constructor
  · rintro ⟨h1, h2, h3, h4, h5, h6, h7, h8, h9, h10, h11, h12, h13⟩
    exact ⟨h1, h2, h3, h4, h5, h6, h7, h8, h9, h10, h11, h12, h13⟩
  · rintro ⟨h1, h2, h3, h4, h5, h6, h7, h8, h9, h10, h11, h12, h13⟩
    exact ⟨h1, h2, h3, h4, h5, h6, h7, h8, h9, h10, h11, h12, h13⟩

/-- The text that is hashed tells identities apart. -/
theorem canonicalIdentity_inj (hi : IsIdentity i) (hj : IsIdentity j) :
    canonicalIdentity i = canonicalIdentity j ↔ SameIdentity i j := by
  rw [← fields_inj hi hj]
  constructor
  · intro h
    exact lines_inj rfl hi.lines hj.lines h
  · intro h
    rw [canonicalIdentity, canonicalIdentity, h]

/-! ## The builder -/

theorem optionText_spec {pattern : String → Bool} {s : String}
    (h : optionText pattern value = some s) : s = "" ∨ pattern s = true := by
  cases value with
  | undefined | null => exact .inl (Option.some.inj h).symm
  | string t =>
    rw [optionText] at h
    split at h
    · next ht =>
      cases h
      exact ht
    · cases h
  | number x =>
    rw [optionText] at h
    split at h
    · next hx =>
      cases h
      exact .inr hx.2
    · cases h
  | _ => cases h

theorem deadlineOf_spec {x : Number} (h : deadlineOf value = some x) :
    Number.isSafeInteger x = true ∧ 0 ≤ x := by
  cases value with
  | undefined | null =>
    cases h
    decide +kernel
  | number y =>
    rw [deadlineOf] at h
    split at h
    · next hy =>
      cases h
      exact hy
    · cases h
  | _ => cases h

theorem sanitizeRunId_spec (raw : Value) : sanitizeRunId raw = "" ∨
    (sanitizeRunId raw = trim (sanitizeRunId raw) ∧ strLength (sanitizeRunId raw) ≤ 128 ∧
      hasControlChar (sanitizeRunId raw) = false) := by
  cases raw with
  | string s =>
    rw [sanitizeRunId]
    split
    · exact .inl rfl
    · next h =>
      simp only [not_or, Bool.not_eq_true, gt_iff_lt, Nat.not_lt] at h
      exact .inr ⟨(trim_trim s).symm, h.2.1, h.2.2⟩
  | _ => exact .inl rfl

section

variable {toLowerCase sha256 : String → String} {event : CanonicalForgeEvent} {options : BuildJobOptions}
  {job : ReviewJob}

/-- What the builder guarantees about a job. -/
structure IsBuilt (sha256 : String → String) (event : CanonicalForgeEvent) (job : ReviewJob) : Prop where
  jobId : job.jobId = deriveGenerationId sha256 (identityOf job)
  jobId_ne : job.jobId ≠ ""
  reason : job.reason = event.kind.name
  installationId : job.installationId = "" ∨ isPositiveDecimal 31 job.installationId = true
  repoFullName : job.repoFullName = event.repoFullName
  repoFullName_ne : job.repoFullName ≠ ""
  prNumber : Number.isSafeInteger job.prNumber = true ∧ 0 < job.prNumber
  prId : Number.isSafeInteger job.prId = true ∧ 0 ≤ job.prId
  headSha : job.headSha = "" ∨ isSha job.headSha = true
  review : job.kind = .review → job.headSha ≠ "" ∧ job.eventReference = ""
  baseSha : job.baseSha = "" ∨ isSha job.baseSha = true
  configFingerprint : job.configFingerprint = "" ∨ isConfigFingerprint job.configFingerprint = true
  nonce : job.nonce = "" ∨ isNonce job.nonce = true
  followUp : job.kind = .followUp → job.nonce = "" ∧ isPositiveDecimal 18 job.eventReference = true
  adoptionEpoch : job.adoptionEpoch = "" ∨ isAdoptionEpoch job.adoptionEpoch = true
  forgeIntegration : job.forgeIntegration = "" ∨ isForgeIntegration job.forgeIntegration = true
  deadlineAtMs : Number.isSafeInteger job.deadlineAtMs = true ∧ 0 ≤ job.deadlineAtMs
  runId : job.runId = "" ∨ (job.runId = trim job.runId ∧ strLength job.runId ≤ 128 ∧
    hasControlChar job.runId = false)

variable {kind : ReviewJobKind}

theorem nonceOf_spec {value : Value} {nonce : String} (h : nonceOf kind value = some nonce) :
    (nonce = "" ∨ isNonce nonce = true) ∧ (kind = .followUp → nonce = "") := by
  cases kind with
  | review => exact ⟨optionText_spec h, nofun⟩
  | followUp =>
    have hnone : nonce = "" := (Option.some.inj h).symm
    exact ⟨.inl hnone, fun _ => hnone⟩

theorem eventReferenceOf_spec {reference : String}
    (h : eventReferenceOf kind event = some reference) :
    (kind = .review → reference = "") ∧ (kind = .followUp → isPositiveDecimal 18 reference = true) := by
  cases kind with
  | review => exact ⟨fun _ => (Option.some.inj h).symm, by simp⟩
  | followUp =>
    rw [eventReferenceOf] at h
    split at h
    · next hid =>
      cases h
      exact ⟨by simp, fun _ => hid⟩
    · cases h

theorem isBuilt_of_buildReviewJob (h : buildReviewJob toLowerCase sha256 event options = some job) :
    IsBuilt sha256 event job := by
  simp only [buildReviewJob, Option.bind_eq_bind, Option.bind_eq_some_iff, Option.guard_eq_some'] at h
  obtain ⟨-, hkind, nonce, hnonce, adoptionEpoch, hepoch, forgeIntegration, hforge, eventReference, hreference, -,
    hhead, -, hbase, -, hreview, -, hscoped, configFingerprint, hconfig, deadlineAtMs, hdeadline, -, hid, hjob⟩ := h
  simp only [wellScoped, Bool.and_eq_true, Bool.or_eq_true, decide_eq_true_eq] at hscoped
  obtain ⟨⟨⟨hinstallation, hrepo⟩, hnumber⟩, hprId⟩ := hscoped
  cases hjob
  exact {
    jobId := rfl
    jobId_ne := hid
    reason := rfl
    installationId := hinstallation
    repoFullName := rfl
    repoFullName_ne := hrepo
    prNumber := hnumber
    prId := hprId
    headSha := hhead
    review := fun hkind => ⟨hreview hkind, (eventReferenceOf_spec hreference).1 hkind⟩
    followUp := fun hkind => ⟨(nonceOf_spec hnonce).2 hkind, (eventReferenceOf_spec hreference).2 hkind⟩
    baseSha := hbase
    configFingerprint := optionText_spec hconfig
    nonce := (nonceOf_spec hnonce).1
    adoptionEpoch := optionText_spec hepoch
    forgeIntegration := optionText_spec hforge
    deadlineAtMs := deadlineOf_spec hdeadline
    runId := sanitizeRunId_spec options.runId }

/-- A job that was built has an identity, and its id is the hash of it. -/
theorem isIdentity_of_isBuilt (h : IsBuilt sha256 event job) :
    IsIdentity (identityOf job) ∧ job.jobId = sha256 (canonicalIdentity (identityOf job)) := by
  have hid := h.jobId
  rw [deriveGenerationId] at hid
  split at hid
  · exact absurd hid h.jobId_ne
  · next hlines =>
    refine ⟨⟨?_, ⟨h.prNumber.1, Number.le_of_lt h.prNumber.2⟩, h.prId⟩, hid⟩
    intro f hf hbreak
    refine hlines (any_eq_true.mpr ⟨f, hf, any_eq_true.mpr ⟨'\n', hbreak, ?_⟩⟩)
    rfl

theorem name_isDisplayName (kind : ForgeEventKind) : isDisplayName kind.name = true := by
  cases kind <;> decide +kernel

/-- A run of lower-case hex digits holds no control character. -/
theorem isDisplayName_of_hex {s : String} (h : isRun isLowerHex 64 64 s = true) : isDisplayName s = true := by
  simp only [isRun, Bool.and_eq_true, decide_eq_true_eq, all_eq_true] at h
  obtain ⟨⟨hlength, -⟩, hall⟩ := h
  rw [isDisplayName, Bool.and_eq_true]
  constructor
  · rw [decide_eq_true_eq]
    rintro rfl
    exact absurd hlength (by decide)
  · rw [Bool.not_eq_true', hasControlChar, any_eq_false]
    intro c hc
    have hhex := hall c hc
    have hrange : (48 ≤ c.toNat ∧ c.toNat ≤ 57) ∨ (97 ≤ c.toNat ∧ c.toNat ≤ 102) := by
      simpa [isLowerHex, isDigit, Char.le_def, UInt32.le_iff_toNat_le] using hhex
    simp only [Bool.or_eq_true, decide_eq_true_eq, beq_iff_eq]
    omega

/-- The rules of the store follow from those of the builder. -/
theorem validJob_of_isBuilt (h : IsBuilt sha256 event job) (hid : isDisplayName job.jobId = true)
    (hrepo : hasControlChar event.repoFullName = false) : validJob job = true := by
  have hname : isDisplayName job.reason = true := by
    rw [h.reason]
    exact name_isDisplayName event.kind
  have hrepo' : isDisplayName job.repoFullName = true := by
    rw [isDisplayName, h.repoFullName, hrepo]
    simpa [h.repoFullName] using h.repoFullName_ne
  have hreview : ¬job.kind = .review ∨ ¬job.headSha = "" := by
    by_cases hk : job.kind = .review
    · exact .inr (h.review hk).1
    · exact .inl hk
  have hfollow : ¬job.kind = .followUp ∨ ¬job.nonce ≠ "" := by
    by_cases hk : job.kind = .followUp
    · exact .inr (not_not.mpr (h.followUp hk).1)
    · exact .inl hk
  simp only [validJob, hid, hname, hrepo', Bool.and_eq_true, Bool.or_eq_true, decide_eq_true_eq,
    Bool.not_eq_true', Bool.and_eq_false_iff, decide_eq_false_iff_not, isSafeNonNegative, isShaOrEmpty,
    isTokenOrEmpty, h.prNumber, h.prId, h.deadlineAtMs, and_true, true_and]
  refine ⟨⟨⟨⟨⟨⟨⟨⟨⟨⟨h.installationId, h.headSha⟩, hreview⟩, h.baseSha⟩, h.configFingerprint⟩, h.nonce⟩, hfollow⟩,
    h.adoptionEpoch⟩, ?_⟩, h.forgeIntegration⟩, by simpa [and_assoc] using h.runId⟩
  cases hk : job.kind with
  | review => simpa using (h.review hk).2
  | followUp => exact (h.followUp hk).2

/-- The text that is hashed is one and the same for two jobs exactly when their identity fields are equal; and the
store gives a job back as it is, when the name of its repository holds no control character. -/
theorem identity_faithful (toLowerCase sha256 : String → String)
    (hsha : ∀ s, isRun isLowerHex 64 64 (sha256 s) = true) :
    (∀ (event event' : CanonicalForgeEvent) (options options' : BuildJobOptions) (job job' : ReviewJob),
      buildReviewJob toLowerCase sha256 event options = some job →
      buildReviewJob toLowerCase sha256 event' options' = some job' →
      job.jobId = sha256 (canonicalIdentity (identityOf job)) ∧
      (canonicalIdentity (identityOf job) = canonicalIdentity (identityOf job') ↔
        SameIdentity (identityOf job) (identityOf job'))) ∧
    ∀ (event : CanonicalForgeEvent) (options : BuildJobOptions) (job : ReviewJob),
      buildReviewJob toLowerCase sha256 event options = some job → hasControlChar event.repoFullName = false →
      Queue.validateReviewJob (Queue.jobValue job) = some job := by
  constructor
  · intro event event' options options' job job' h h'
    obtain ⟨hidentity, hid⟩ := isIdentity_of_isBuilt (isBuilt_of_buildReviewJob h)
    exact ⟨hid, canonicalIdentity_inj hidentity (isIdentity_of_isBuilt (isBuilt_of_buildReviewJob h')).1⟩
  · intro event options job h hrepo
    have hbuilt := isBuilt_of_buildReviewJob h
    have hid : isDisplayName job.jobId = true := by
      rw [(isIdentity_of_isBuilt hbuilt).2]
      exact isDisplayName_of_hex (hsha _)
    rw [Queue.validateReviewJob_jobValue, if_pos (validJob_of_isBuilt hbuilt hid hrepo)]

/-- A review of one head and a follow-up of a comment on it. -/
theorem identity_faithful_followUp :
    let sha256 := fun _ : String => String.ofList (List.replicate 64 'a')
    let event : CanonicalForgeEvent :=
      { platform := .github, source := .webhook, kind := .synchronize, installationId := "12",
        repoFullName := "o/r", prNumber := 7, prId := 0, headSha := "0123abc", baseSha := "", draft := false,
        fork := false, labelName := "", actor := "", eventReference := "" }
    let event' := { event with kind := .followUp, eventReference := "31" }
    ∃ job job', buildReviewJob id sha256 event .none = some job ∧
      buildReviewJob id sha256 event' .none = some job' ∧
      (canonicalIdentity (identityOf job) = canonicalIdentity (identityOf job') ↔
        SameIdentity (identityOf job) (identityOf job')) ∧
      Queue.validateReviewJob (Queue.jobValue job') = some job' := by
  intro sha256 event event'
  have hsha : ∀ s, isRun isLowerHex 64 64 (sha256 s) = true := fun s => by decide +kernel
  have hsome : (buildReviewJob id sha256 event .none).isSome = true := by decide +kernel
  have hsome' : (buildReviewJob id sha256 event' .none).isSome = true := by decide +kernel
  obtain ⟨job, hjob⟩ := Option.isSome_iff_exists.mp hsome
  obtain ⟨job', hjob'⟩ := Option.isSome_iff_exists.mp hsome'
  obtain ⟨hhashed, hstored⟩ := identity_faithful id sha256 hsha
  exact ⟨job, job', hjob, hjob', (hhashed event event' .none .none job job' hjob hjob').2,
    hstored event' .none job' hjob' (by decide +kernel)⟩

end

end PrReviewer.Jobs
