import Mathlib.Data.Option.Basic
import PrReviewer.Events.Normalize

/-!
# Review job generation

`src/jobs/generation.ts` and `src/jobs/schedule.ts`: the job an event spawns, and the id that is a hash of its identity.

- Options are values: the builder checks what it is given.
- `sha256` is a parameter (the hex digest of a text).
- The source of an event and its kind are no part of the identity (`buildReviewJob_observed`).
-/

open Js

namespace PrReviewer.Jobs

open Queue (ReviewJob ReviewJobKind ReviewTrigger JobPlatform)
open Events (CanonicalForgeEvent ForgeEventKind)

/-! ## Scheduling -/

/-- `SCHEDULED_KINDS`. -/
def isScheduledKind : ForgeEventKind → Bool
  | .prOpened | .prReopened | .synchronize | .readyForReview | .rereviewLabel | .reconciliationPoll | .checkUpdate =>
    true
  | _ => false

def shouldSchedule (event : CanonicalForgeEvent) : Bool := decide (0 < event.prNumber) && isScheduledKind event.kind

/-! ## Identity -/

structure GenerationIdentity where
  platform : JobPlatform
  installationId : String
  repoFullName : String
  prNumber : Number
  prId : Number
  headSha : String
  baseSha : String
  configFingerprint : String
  kind : ReviewJobKind
  nonce : String
  adoptionEpoch : String
  eventReference : String
  forgeIntegration : String

/-- The fields in the order of `IDENTITY_FIELDS`, as text. -/
def GenerationIdentity.fields (i : GenerationIdentity) : List (String × String) :=
  [("platform", i.platform.name), ("installationId", i.installationId), ("repoFullName", i.repoFullName),
    ("prNumber", numberToString i.prNumber), ("prId", numberToString i.prId), ("headSha", i.headSha),
    ("baseSha", i.baseSha), ("configFingerprint", i.configFingerprint), ("kind", i.kind.name), ("nonce", i.nonce),
    ("adoptionEpoch", i.adoptionEpoch), ("eventReference", i.eventReference), ("forgeIntegration", i.forgeIntegration)]

def canonicalIdentity (identity : GenerationIdentity) : String :=
  String.join (identity.fields.map fun (field, value) => field ++ "=" ++ value ++ "\n")

/-- `""` where a value would break its line. -/
def deriveGenerationId (sha256 : String → String) (identity : GenerationIdentity) : String :=
  if identity.fields.any fun (_, value) => value.toList.any fun c => c = '\n' || c = '\r' then ""
  else sha256 (canonicalIdentity identity)

/-! ## Jobs -/

/-- `NO_JOB_KINDS`. -/
def isNoJobKind : ForgeEventKind → Bool
  | .prClosed | .prMerged | .installationChange | .visibilityChange | .unknown => true
  | _ => false

/-- `SHA_PATTERN`. -/
def isSha (s : String) : Bool := isRun isLowerHex 7 64 s

/-- `CONFIG_FINGERPRINT_PATTERN`. -/
def isConfigFingerprint (s : String) : Bool := isRun isLowerHex 8 64 s

/-- `NONCE_PATTERN`. -/
def isNonce (s : String) : Bool := isRun isTokenChar 1 64 s

/-- `ADOPTION_EPOCH_PATTERN`. -/
def isAdoptionEpoch (s : String) : Bool := isRun isTokenChar 1 64 s

/-- `FORGE_INTEGRATION_PATTERN`. -/
def isForgeIntegration (s : String) : Bool := isRun isTokenChar 1 64 s

def sanitizeRunId (raw : Value) : String :=
  match raw with
  | .string s =>
    let trimmed := trim s
    if trimmed = "" ∨ strLength trimmed > 128 ∨ hasControlChar trimmed then "" else trimmed
  | _ => ""

structure BuildJobOptions where
  configFingerprint : Value
  nonce : Value
  adoptionEpoch : Value
  forgeIntegration : Value
  deadlineAtMs : Value
  runId : Value

/-- `{}`. -/
def BuildJobOptions.none : BuildJobOptions := ⟨.undefined, .undefined, .undefined, .undefined, .undefined, .undefined⟩

/-- The text of an option: `""` when it is absent, no answer when it is none of the form. -/
def optionText (pattern : String → Bool) : Value → Option String
  | .undefined => some ""
  | .null => some ""
  | .string s => if s = "" ∨ pattern s = true then some s else none
  | .number x =>
    if Number.isSafeInteger x = true ∧ pattern (numberToString x) = true then some (numberToString x) else none
  | _ => none

def deadlineOf : Value → Option Number
  | .undefined => some 0
  | .null => some 0
  | .number x => if Number.isSafeInteger x = true ∧ 0 ≤ x then some x else none
  | _ => none

section

variable (toLowerCase sha256 : String → String)

def normalizeSha (sha : String) : String := toLowerCase (trim sha)

/-- The nonce of a review; that of a follow-up is dropped. -/
def nonceOf (kind : ReviewJobKind) (nonce : Value) : Option String :=
  match kind with
  | .review => optionText isNonce nonce
  | .followUp => some ""

/-- The comment that a follow-up answers; a review has none. -/
def eventReferenceOf (kind : ReviewJobKind) (event : CanonicalForgeEvent) : Option String :=
  match kind with
  | .review => some ""
  | .followUp => if Events.isCommentId event.eventReference then some event.eventReference else none

/-- The scoping fields of an event are well formed. -/
def wellScoped (event : CanonicalForgeEvent) : Bool :=
  (event.installationId = "" || Events.isInstallationId event.installationId) &&
  event.repoFullName ≠ "" &&
  (Number.isSafeInteger event.prNumber && decide (0 < event.prNumber)) &&
  (Number.isSafeInteger event.prId && decide (0 ≤ event.prId))

def buildReviewJob (event : CanonicalForgeEvent) (options : BuildJobOptions) : Option ReviewJob := do
  let kind : ReviewJobKind := if event.kind = .followUp then .followUp else .review
  guard (isNoJobKind event.kind = false)
  let nonce ← nonceOf kind options.nonce
  let adoptionEpoch ← optionText isAdoptionEpoch options.adoptionEpoch
  let forgeIntegration ← optionText isForgeIntegration options.forgeIntegration
  let eventReference ← eventReferenceOf kind event
  let headSha := normalizeSha toLowerCase event.headSha
  let baseSha := normalizeSha toLowerCase event.baseSha
  guard (headSha = "" ∨ isSha headSha = true)
  guard (baseSha = "" ∨ isSha baseSha = true)
  guard (kind = .review → headSha ≠ "")
  guard (wellScoped event = true)
  let configFingerprint ← optionText isConfigFingerprint options.configFingerprint
  let deadlineAtMs ← deadlineOf options.deadlineAtMs
  let jobId :=
    deriveGenerationId sha256
      { platform := event.platform
        installationId := event.installationId
        repoFullName := event.repoFullName
        prNumber := event.prNumber
        prId := event.prId
        headSha
        baseSha
        configFingerprint
        kind
        nonce
        adoptionEpoch
        eventReference
        forgeIntegration }
  guard (jobId ≠ "")
  return {
    jobId
    kind
    trigger := event.source
    reason := event.kind.name
    platform := event.platform
    installationId := event.installationId
    repoFullName := event.repoFullName
    prNumber := event.prNumber
    prId := event.prId
    headSha
    baseSha
    configFingerprint
    nonce
    adoptionEpoch
    eventReference
    forgeIntegration
    fork := event.fork
    deadlineAtMs
    runId := sanitizeRunId options.runId }

variable {toLowerCase sha256}

/-! ## Observations of one head -/

/-- What a review job takes from its event, but for the source and the kind. -/
structure SameHead (e e' : CanonicalForgeEvent) : Prop where
  platform : e.platform = e'.platform
  installationId : e.installationId = e'.installationId
  repoFullName : e.repoFullName = e'.repoFullName
  prNumber : e.prNumber = e'.prNumber
  prId : e.prId = e'.prId
  headSha : e.headSha = e'.headSha
  baseSha : e.baseSha = e'.baseSha
  fork : e.fork = e'.fork

theorem not_followUp_of_scheduled {kind : ForgeEventKind} (h : isScheduledKind kind = true) :
    kind ≠ .followUp ∧ isNoJobKind kind = false := by
  cases kind <;> simp_all [isScheduledKind, isNoJobKind]

theorem wellScoped_congr {e e' : CanonicalForgeEvent} (h : SameHead e e') : wellScoped e = wellScoped e' := by
  rw [wellScoped, wellScoped, h.installationId, h.repoFullName, h.prNumber, h.prId]

/-- Two observations of a head that schedule a review give one job, up to how it was observed. -/
theorem buildReviewJob_observed {e e' : CanonicalForgeEvent} (h : SameHead e e')
    (hkind : isScheduledKind e.kind = true) (hkind' : isScheduledKind e'.kind = true) (options : BuildJobOptions) :
    buildReviewJob toLowerCase sha256 e options =
      (buildReviewJob toLowerCase sha256 e' options).map fun job =>
        { job with trigger := e.source, reason := e.kind.name } := by
  obtain ⟨hfollow, hjob⟩ := not_followUp_of_scheduled hkind
  obtain ⟨hfollow', hjob'⟩ := not_followUp_of_scheduled hkind'
  simp only [buildReviewJob, if_neg hfollow, if_neg hfollow', hjob, hjob', eventReferenceOf, wellScoped_congr h,
    h.platform, h.installationId, h.repoFullName, h.prNumber, h.prId, h.headSha, h.baseSha, h.fork]
  simp only [Option.bind_eq_bind, Option.map_bind, Function.comp_def]
  rfl

/-- A job is about the repository of its event. -/
theorem repoFullName_of_buildReviewJob {event : CanonicalForgeEvent} {options : BuildJobOptions} {job : ReviewJob}
    (h : buildReviewJob toLowerCase sha256 event options = some job) : job.repoFullName = event.repoFullName := by
  simp only [buildReviewJob, Option.bind_eq_bind, Option.bind_eq_some_iff] at h
  obtain ⟨-, -, nonce, -, adoptionEpoch, -, forgeIntegration, -, eventReference, -, -, -, -, -, -, -, -, -,
    configFingerprint, -, deadlineAtMs, -, -, -, hjob⟩ := h
  cases hjob
  rfl

end

end PrReviewer.Jobs
