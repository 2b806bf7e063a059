import PrReviewer.Ingress.Reconcile
import PrReviewer.Js.Log

/-!
# Webhook and poll converge

- A polled PR object and an envelope around it are observations of one head (`sameHead_of_envelope`), so they give one
  generation id.
- `Fits` is what a pass keeps between any two awaits: its counts, and where its jobs come from. `Accounted` says that
  each of its reservations is still held, was released, or belongs to a job that was handed over.
-/

open Js List

namespace PrReviewer.Ingress

open Queue (ReviewJob JobPlatform ReviewTrigger)
open Events
open Jobs (BuildJobOptions buildReviewJob shouldSchedule SameHead)

section

variable {toLowerCase sha256 maskDiagnostic : String → String}

/-! ## One head, two observations -/

theorem ne_zero_of_prNumber? {value : Value} {n : Number} (h : prNumber? value = some n) : (n == 0) = false := by
  simp only [prNumber?, Option.filter_eq_some_iff, isPrNumber, Bool.and_eq_true, decide_eq_true_eq] at h
  by_contra hzero
  rw [Bool.not_eq_false] at hzero
  have hlt : 0 < Number.plusZero n := Number.lt_plusZero.mpr h.2.2
  rw [Number.plusZero, if_pos hzero] at hlt
  revert hlt
  decide

variable (toLowerCase) in
/-- The repository that a payload names. -/
def repositoryOf (raw : Value) : String :=
  repoOf toLowerCase raw (resolvePr toLowerCase raw) (repoFromList toLowerCase raw)

/-- An envelope around a PR object, and a poll of that object, for one repository and installation. -/
structure Carries (toLowerCase : String → String) (envelope p installationId : Value) : Prop where
  isObject : isPlainObject p = true
  number : (prNumber? (p.get "number")).isSome
  pullRequest : p.get "pull_request" = .undefined
  issue : p.get "issue" = .undefined
  pullRequests : p.get "pull_requests" = .undefined
  carried : envelope.get "pull_request" = p
  repository : repositoryOf toLowerCase envelope = repositoryOf toLowerCase p
  installation : installationIdOf envelope = normalizeInstallationId installationId

variable {n i : Nat} {platform : JobPlatform} {envelope installationId : Value} {p p' : Pass}
  {source : ReviewTrigger} {rereviewLabel : String} {e : LogEntry} {log log' : List LogEntry}
  {options : ReconcileOptions} {scan : Scan} {event : CanonicalForgeEvent} {job : ReviewJob}
  {ledger : List String} {s : System}

theorem sameHead_of_envelope {p : Value}
    {e : CanonicalForgeEvent} (h : Carries toLowerCase envelope p installationId)
    (he : normalizeEvent toLowerCase platform envelope source rereviewLabel = some e) :
    ∃ e', reconciliationPollEvent toLowerCase platform p installationId = some e' ∧ SameHead e e' ∧
      e'.kind = .reconciliationPoll := by
  obtain ⟨n, hn⟩ := Option.isSome_iff_exists.mp h.number
  have hbare : resolvePr toLowerCase p = some (extractPr toLowerCase .bare 0 p) :=
    resolvePr_bare hn h.pullRequest h.issue h.pullRequests
  have hpull : resolvePr toLowerCase envelope = some (extractPr toLowerCase .envelope 0 p) :=
    resolvePr_envelope h.isObject h.carried
  have hrepo := h.repository
  simp only [repositoryOf, hbare, hpull] at hrepo
  simp only [normalizeEvent, hpull] at he
  split at he
  · cases he
  split at he
  · cases he
  next hnonempty =>
  split at he
  · cases he
  cases he
  have hnumber : ((extractPr toLowerCase .bare 0 p).prNumber == 0) = false := by
    simp only [extractPr, hn, Option.getD_some]
    exact ne_zero_of_prNumber? hn
  have hnonempty' : ¬ repoOf toLowerCase p (some (extractPr toLowerCase .bare 0 p)) "" = "" := by
    intro hempty
    exact hnonempty (hrepo.trans hempty)
  simp only [reconciliationPollEvent, h.isObject, hbare]
  rw [if_neg (by simp), if_neg (by simp [hnumber]), if_neg hnonempty']
  exact ⟨_, rfl, ⟨rfl, h.installation, hrepo, rfl, rfl, rfl, rfl, rfl⟩, rfl⟩

/-- The job of a webhook event that schedules is that of the poll, up to how it was observed. -/
theorem job_of_envelope {p : Value}
    {e : CanonicalForgeEvent} (h : Carries toLowerCase envelope p installationId)
    (he : normalizeEvent toLowerCase platform envelope source rereviewLabel = some e)
    (hschedules : shouldSchedule e = true) :
    ∃ e', reconciliationPollEvent toLowerCase platform p installationId = some e' ∧
      ∀ options, (buildReviewJob toLowerCase sha256 e options).map ReviewJob.jobId =
        (buildReviewJob toLowerCase sha256 e' options).map ReviewJob.jobId := by
  obtain ⟨e', he', hsame, hkind⟩ := sameHead_of_envelope h he
  refine ⟨e', he', fun options => ?_⟩
  have hscheduled : Jobs.isScheduledKind e.kind = true := by
    rw [shouldSchedule, Bool.and_eq_true] at hschedules
    exact hschedules.2
  have hscheduled' : Jobs.isScheduledKind e'.kind = true := by rw [hkind]; rfl
  rw [Jobs.buildReviewJob_observed hsame hscheduled hscheduled', Option.map_map]
  rfl

/-! ## Passes -/

variable (toLowerCase sha256) in
/-- The job was minted from an entry that the pass listed, and it is about the repository that was listed. -/
def Belongs (log : List LogEntry) (i : Nat) (options : ReconcileOptions) (job : ReviewJob) : Prop :=
  ∃ rawRepo entries entry event identity, .listed i rawRepo entries ∈ log ∧ entry ∈ entries ∧
    reconciliationPollEvent toLowerCase options.platform entry options.installationId = some event ∧
    buildReviewJob toLowerCase sha256 event identity = some job ∧
    job.repoFullName = normalizeRepoFullName toLowerCase rawRepo

variable (toLowerCase) in
/-- The entries still to come were listed. -/
def Listed (log : List LogEntry) (i : Nat) (scan : Scan) : Prop :=
  scan.targetRepo = normalizeRepoFullName toLowerCase scan.rawRepo ∧
    ∃ entries, .listed i scan.rawRepo entries ∈ log ∧ scan.entries ⊆ entries

variable (toLowerCase) in
def Polled (log : List LogEntry) (i : Nat) (options : ReconcileOptions) (scan : Scan) (event : CanonicalForgeEvent) :
    Prop :=
  event.repoFullName = scan.targetRepo ∧
    ∃ entries entry, .listed i scan.rawRepo entries ∈ log ∧ entry ∈ entries ∧
      reconciliationPollEvent toLowerCase options.platform entry options.installationId = some event

variable (toLowerCase sha256) in
def PhaseFits (log : List LogEntry) (i : Nat) (options : ReconcileOptions) : PassPhase → Prop
  | .listing rawRepo targetRepo => targetRepo = normalizeRepoFullName toLowerCase rawRepo
  | .resolving scan event => Listed toLowerCase log i scan ∧ Polled toLowerCase log i options scan event
  | .reserving scan job => Listed toLowerCase log i scan ∧ Belongs toLowerCase sha256 log i options job
  | .reserved scan job _ => Listed toLowerCase log i scan ∧ Belongs toLowerCase sha256 log i options job
  | .handing scan job => Listed toLowerCase log i scan ∧ Belongs toLowerCase sha256 log i options job
  | .releasing scan _ _ => Listed toLowerCase log i scan
  | .released scan _ => Listed toLowerCase log i scan
  | .ended => True

/-- The entries that are discovered and not decided yet. -/
def PassPhase.pending : PassPhase → Nat
  | .listing _ _ => 0
  | .ended => 0
  | _ => 1

/-- The job whose reservation the pass holds and has not dealt with. -/
def PassPhase.holds : PassPhase → Option ReviewJob
  | .reserved _ job true => some job
  | .handing _ job => some job
  | .releasing _ job _ => some job
  | _ => none

variable (toLowerCase sha256) in
/-- The report of a pass so far, with the entries that are not decided. -/
structure Report (log : List LogEntry) (i : Nat) (p : Pass) (pending : Nat) : Prop where
  jobs : ∀ job ∈ p.jobs, Belongs toLowerCase sha256 log i p.options job
  counts : p.failed = [] → p.discovered = p.jobs.length + p.skipped + pending

variable (toLowerCase sha256) in
structure Fits (log : List LogEntry) (i : Nat) (p : Pass) : Prop where
  report : Report toLowerCase sha256 log i p p.phase.pending
  phase : PhaseFits toLowerCase sha256 log i p.options p.phase

/-- What the pass did with its reservations. -/
def Accounted (log : List LogEntry) (i : Nat) (p : Pass) : Prop :=
  ∀ job l, .scheduled (.pass i) job :: l <:+ log →
    p.phase.holds = some job ∨ .removed (some i) job.jobId ∈ l ∨
      (job ∈ p.jobs ∧ (p.options.enqueues = true → .handedOver i job ∈ l))

/-- A walk through entries and repositories leaves the jobs as they are and ends without a reservation. -/
structure Walk (p p' : Pass) : Prop where
  options : p'.options = p.options
  jobs : p'.jobs = p.jobs
  holds : p'.phase.holds = none

theorem Report.fail (h : Report toLowerCase sha256 log i p n)
    (rawRepo : String) : Report toLowerCase sha256 log i (p.fail rawRepo) 0 where
  jobs := h.jobs
  counts hfailed := by simp [Pass.fail] at hfailed

theorem Report.skip (h : Report toLowerCase sha256 log i p 1) :
    Report toLowerCase sha256 log i p.skip 0 where
  jobs := h.jobs
  counts hfailed := by
    have hcounts := h.counts hfailed
    simp only [Pass.skip]
    omega

theorem nextRepo_fits {log : List LogEntry} {i : Nat} {p : Pass} {repos : List String}
    (h : Report toLowerCase sha256 log i p 0) :
    Fits toLowerCase sha256 log i (p.nextRepo toLowerCase repos) ∧ Walk p (p.nextRepo toLowerCase repos) := by
  induction repos generalizing p with
  | nil => exact ⟨⟨⟨h.jobs, h.counts⟩, trivial⟩, ⟨rfl, rfl, rfl⟩⟩
  | cons rawRepo repos ih =>
    unfold Pass.nextRepo
    dsimp only
    split
    · obtain ⟨hfits, hwalk⟩ := ih (h.fail rawRepo)
      exact ⟨hfits, ⟨hwalk.options, hwalk.jobs, hwalk.holds⟩⟩
    · exact ⟨⟨⟨h.jobs, h.counts⟩, rfl⟩, ⟨rfl, rfl, rfl⟩⟩

/-- A job of a polled event belongs to the repository. -/
theorem Polled.mint
    (h : Polled toLowerCase log i options scan event)
    (hscan : Listed toLowerCase log i scan) {identity : Option BuildJobOptions} {job : ReviewJob}
    (hjob : Pass.mint toLowerCase sha256 event identity = some job) :
    Belongs toLowerCase sha256 log i options job := by
  obtain ⟨htarget, entries, entry, hlisted, hentry, hevent⟩ := h
  obtain ⟨identity, -, hjob⟩ := Option.bind_eq_some_iff.mp hjob
  refine ⟨scan.rawRepo, entries, entry, event, identity, hlisted, hentry, hevent, hjob, ?_⟩
  rw [Jobs.repoFullName_of_buildReviewJob hjob, htarget, hscan.1]

theorem nextEntry_fits {log : List LogEntry} {i : Nat} {p : Pass} {rawRepo targetRepo : String}
    {resolved : Option (Option BuildJobOptions)} {entries : List Value} (h : Report toLowerCase sha256 log i p 0)
    (hscan : Listed toLowerCase log i ⟨rawRepo, targetRepo, entries, resolved⟩) :
    Fits toLowerCase sha256 log i (p.nextEntry toLowerCase sha256 rawRepo targetRepo resolved entries) ∧
      Walk p (p.nextEntry toLowerCase sha256 rawRepo targetRepo resolved entries) := by
  induction entries generalizing p resolved with
  | nil => exact nextRepo_fits h
  | cons entry entries ih =>
    obtain ⟨htarget, all, hlisted, hsub⟩ := hscan
    have hrest (resolved : Option (Option BuildJobOptions)) :
        Listed toLowerCase log i ⟨rawRepo, targetRepo, entries, resolved⟩ :=
      ⟨htarget, all, hlisted, fun x hx => hsub (mem_cons_of_mem _ hx)⟩
    have hone : Report toLowerCase sha256 log i { p with discovered := p.discovered + 1 } 1 :=
      ⟨h.jobs, fun hfailed => by
        have hcounts := h.counts hfailed
        simp only
        omega⟩
    have hskip (resolved : Option (Option BuildJobOptions)) :
        Fits toLowerCase sha256 log i (Pass.nextEntry toLowerCase sha256 rawRepo targetRepo
            (Pass.skip { p with discovered := p.discovered + 1 }) resolved entries) ∧
          Walk p (Pass.nextEntry toLowerCase sha256 rawRepo targetRepo
            (Pass.skip { p with discovered := p.discovered + 1 }) resolved entries) := by
      obtain ⟨hfits, hwalk⟩ := ih hone.skip (hrest resolved)
      exact ⟨hfits, ⟨hwalk.options, hwalk.jobs, hwalk.holds⟩⟩
    unfold Pass.nextEntry
    dsimp only
    split
    · exact hskip resolved
    · next event hevent =>
      split
      · exact hskip resolved
      · next hsame =>
        have hpolled (resolved : Option (Option BuildJobOptions)) :
            Polled toLowerCase log i p.options ⟨rawRepo, targetRepo, entries, resolved⟩ event :=
          ⟨not_not.mp hsame, all, entry, hlisted, hsub mem_cons_self, hevent⟩
        split
        · exact ⟨⟨⟨hone.jobs, hone.counts⟩, hrest none, hpolled none⟩, ⟨rfl, rfl, rfl⟩⟩
        · next identity _ =>
          split
          · exact hskip (some identity)
          · next job hjob =>
            exact ⟨⟨⟨hone.jobs, hone.counts⟩, hrest _, (hpolled (some identity)).mint (hrest _) hjob⟩,
              ⟨rfl, rfl, rfl⟩⟩

/-! ## A pass among the others -/

theorem Belongs.mono
    (h : Belongs toLowerCase sha256 log i options job) (hlog : log ⊆ log') :
    Belongs toLowerCase sha256 log' i options job := by
  obtain ⟨rawRepo, entries, entry, event, identity, hlisted, hrest⟩ := h
  exact ⟨rawRepo, entries, entry, event, identity, hlog hlisted, hrest⟩

theorem Listed.mono (h : Listed toLowerCase log i scan)
    (hlog : log ⊆ log') : Listed toLowerCase log' i scan := by
  obtain ⟨htarget, entries, hlisted, hsub⟩ := h
  exact ⟨htarget, entries, hlog hlisted, hsub⟩

theorem Polled.mono
    (h : Polled toLowerCase log i options scan event) (hlog : log ⊆ log') :
    Polled toLowerCase log' i options scan event := by
  obtain ⟨htarget, entries, entry, hlisted, hrest⟩ := h
  exact ⟨htarget, entries, entry, hlog hlisted, hrest⟩

theorem PhaseFits.mono {phase : PassPhase}
    (h : PhaseFits toLowerCase sha256 log i options phase) (hlog : log ⊆ log') :
    PhaseFits toLowerCase sha256 log' i options phase := by
  cases phase with
  | listing rawRepo targetRepo => exact h
  | resolving scan event => exact ⟨h.1.mono hlog, h.2.mono hlog⟩
  | reserving scan job => exact ⟨h.1.mono hlog, h.2.mono hlog⟩
  | reserved scan job taken => exact ⟨h.1.mono hlog, h.2.mono hlog⟩
  | handing scan job => exact ⟨h.1.mono hlog, h.2.mono hlog⟩
  | releasing scan job reason => exact Listed.mono h hlog
  | released scan reason => exact Listed.mono h hlog
  | ended => trivial

theorem Report.mono
    (h : Report toLowerCase sha256 log i p n) (hlog : log ⊆ log') : Report toLowerCase sha256 log' i p n :=
  ⟨fun job hjob => (h.jobs job hjob).mono hlog, h.counts⟩

variable (toLowerCase sha256) in
structure PassOk (log : List LogEntry) (i : Nat) (p : Pass) : Prop where
  fits : Fits toLowerCase sha256 log i p
  accounted : Accounted log i p

theorem Accounted.snoc (h : Accounted log i p)
    (he : ∀ job, e ≠ .scheduled (.pass i) job) : Accounted (log ++ [e]) i p := by
  intro job l hl
  rcases suffix_snoc.mp hl with ⟨heq, -⟩ | ⟨k, rfl, hk⟩
  · exact absurd heq.symm (he job)
  · refine (h job k hk).imp_right (.imp (mem_append_left _) ?_)
    rintro ⟨hjob, hhanded⟩
    exact ⟨hjob, fun henqueues => mem_append_left _ (hhanded henqueues)⟩

theorem Accounted.walk (h : Accounted log i p)
    (hholds : p.phase.holds = none) (hwalk : Walk p p') : Accounted log i p' := by
  intro job l hl
  rw [hwalk.jobs, hwalk.options]
  rcases h job l hl with hheld | hrest
  · rw [hholds] at hheld
    cases hheld
  · exact .inr hrest

theorem PassOk.snoc
    (h : PassOk toLowerCase sha256 log i p) (he : ∀ job, e ≠ .scheduled (.pass i) job) :
    PassOk toLowerCase sha256 (log ++ [e]) i p where
  fits :=
    ⟨h.fits.report.mono (subset_append_left _ _), h.fits.phase.mono (subset_append_left _ _)⟩
  accounted := h.accounted.snoc he

/-- A pass that walks on from a phase without a reservation. -/
theorem PassOk.walk (h : PassOk toLowerCase sha256 log i p)
    (hholds : p.phase.holds = none) (hwalk : Fits toLowerCase sha256 log i p' ∧ Walk p p') :
    PassOk toLowerCase sha256 log i p' :=
  ⟨hwalk.1, h.accounted.walk hholds hwalk.2⟩

theorem PassOk.listed {log : List LogEntry} {i : Nat} {p : Pass} {data : Option (List Value)}
    (h : PassOk toLowerCase sha256 log i p)
    (hdata : ∀ rawRepo targetRepo entries, p.phase = .listing rawRepo targetRepo → data = some entries →
      .listed i rawRepo entries ∈ log) : PassOk toLowerCase sha256 log i (p.listed toLowerCase sha256 data) := by
  unfold Pass.listed
  split
  · next rawRepo targetRepo hphase =>
    have hreport := h.fits.report
    have hfits := h.fits.phase
    rw [hphase] at hreport hfits
    split
    · obtain ⟨hfits', hwalk⟩ := @nextRepo_fits _ _ _ _ _ p.repos (hreport.fail rawRepo)
      exact h.walk (by rw [hphase]; rfl) ⟨hfits', ⟨hwalk.options, hwalk.jobs, hwalk.holds⟩⟩
    · next entries =>
      exact h.walk (by rw [hphase]; rfl) (nextEntry_fits hreport
        ⟨hfits, entries, hdata rawRepo targetRepo entries hphase rfl, List.Subset.refl _⟩)
  · exact h

theorem PassOk.resolved (answer : Option (Option BuildJobOptions))
    (h : PassOk toLowerCase sha256 log i p) :
    PassOk toLowerCase sha256 log i (p.resolved toLowerCase sha256 answer) := by
  unfold Pass.resolved
  split
  · next scan event hphase =>
    have hreport := h.fits.report
    have hfits := h.fits.phase
    rw [hphase] at hreport hfits
    have hholds : p.phase.holds = none := by rw [hphase]; rfl
    obtain ⟨hscan, hpolled⟩ := hfits
    split
    · obtain ⟨hfits', hwalk⟩ := @nextRepo_fits _ _ _ _ _ p.repos (hreport.fail scan.rawRepo)
      exact h.walk hholds ⟨hfits', ⟨hwalk.options, hwalk.jobs, hwalk.holds⟩⟩
    · next identity =>
      split
      · obtain ⟨hfits', hwalk⟩ := @nextEntry_fits _ _ _ _ _ _ _ (some identity) _ hreport.skip hscan
        exact h.walk hholds ⟨hfits', ⟨hwalk.options, hwalk.jobs, hwalk.holds⟩⟩
      · next job hjob =>
        exact h.walk hholds ⟨⟨⟨hreport.jobs, hreport.counts⟩, hscan, hpolled.mint hscan hjob⟩, ⟨rfl, rfl, rfl⟩⟩
  · exact h

/-- A job that the pass holds joins the report. -/
theorem push_fits
    (h : Report toLowerCase sha256 log i p 1) (hscan : Listed toLowerCase log i scan)
    (hjob : Belongs toLowerCase sha256 log i p.options job) :
    Fits toLowerCase sha256 log i (p.push toLowerCase sha256 scan job) ∧
      Walk { p with jobs := p.jobs ++ [job] } (p.push toLowerCase sha256 scan job) := by
  refine nextEntry_fits ⟨fun j hj => ?_, fun hfailed => ?_⟩ hscan
  · rcases mem_append.mp hj with hj | hj
    · exact h.jobs j hj
    · rw [mem_singleton.mp hj]
      exact hjob
  · have hcounts := h.counts hfailed
    simp only [length_append, length_singleton]
    omega

theorem PassOk.push
    (h : PassOk toLowerCase sha256 log i p) (hscan : Listed toLowerCase log i scan)
    (hjob : Belongs toLowerCase sha256 log i p.options job) (hpending : p.phase.pending = 1)
    (hholds : p.phase.holds = some job)
    (hhanded : p.options.enqueues = true → ∀ l, .scheduled (.pass i) job :: l <:+ log → .handedOver i job ∈ l) :
    PassOk toLowerCase sha256 log i (p.push toLowerCase sha256 scan job) := by
  have hreport := h.fits.report
  rw [hpending] at hreport
  obtain ⟨hfits, hwalk⟩ := push_fits hreport hscan hjob
  refine ⟨hfits, fun job' l hl => ?_⟩
  rw [hwalk.jobs, hwalk.options]
  rcases h.accounted job' l hl with hheld | hremoved | ⟨hmem, hhanded'⟩
  · rw [hholds] at hheld
    cases hheld
    exact .inr (.inr ⟨mem_append_right _ (mem_singleton_self _), fun henqueues => hhanded henqueues l hl⟩)
  · exact .inr (.inl hremoved)
  · exact .inr (.inr ⟨mem_append_left _ hmem, hhanded'⟩)

theorem PassOk.resume (h : PassOk toLowerCase sha256 log i p) :
    PassOk toLowerCase sha256 log i (p.resume toLowerCase sha256) := by
  have hreport := h.fits.report
  have hfits := h.fits.phase
  unfold Pass.resume
  split
  · next scan job hphase =>
    rw [hphase] at hreport hfits
    obtain ⟨hscan, hjob⟩ := hfits
    split
    · refine ⟨⟨⟨hreport.jobs, hreport.counts⟩, hscan, hjob⟩, fun job' l hl => ?_⟩
      have haccounted := h.accounted job' l hl
      rw [hphase] at haccounted
      exact haccounted
    · next henqueues =>
      exact h.push hscan hjob (by rw [hphase]; rfl) (by rw [hphase]; rfl) fun hyes => absurd hyes henqueues
  · next scan job hphase =>
    rw [hphase] at hreport hfits
    obtain ⟨hfits', hwalk⟩ := @nextEntry_fits _ _ _ _ _ _ _ scan.resolved _ hreport.skip hfits.1
    exact h.walk (by rw [hphase]; rfl) ⟨hfits', ⟨hwalk.options, hwalk.jobs, hwalk.holds⟩⟩
  · next scan reason hphase =>
    rw [hphase] at hreport hfits
    have hrefuse : Report toLowerCase sha256 log i (p.refuse scan.rawRepo reason) 0 :=
      ⟨hreport.skip.jobs, hreport.skip.counts⟩
    obtain ⟨hfits', hwalk⟩ := @nextEntry_fits _ _ _ _ _ _ _ scan.resolved _ hrefuse hfits
    exact h.walk (by rw [hphase]; rfl) ⟨hfits', ⟨hwalk.options, hwalk.jobs, hwalk.holds⟩⟩
  · exact h

/-- The handoff refuses, or the pass does not wait for it. -/
theorem PassOk.handedOver {answer : Handoff}
    (h : PassOk toLowerCase sha256 log i p)
    (haccepted : ∀ scan job, p.phase = .handing scan job → answer = .answers true →
      ∀ l, .scheduled (.pass i) job :: l <:+ log → .handedOver i job ∈ l) :
    PassOk toLowerCase sha256 log i (p.handedOver toLowerCase sha256 maskDiagnostic answer) := by
  have hreport := h.fits.report
  have hfits := h.fits.phase
  unfold Pass.handedOver
  split
  · next scan job hphase =>
    rw [hphase] at hreport hfits
    obtain ⟨hscan, hjob⟩ := hfits
    have hrefused (reason : String) :
        PassOk toLowerCase sha256 log i { p with phase := .releasing scan job reason } := by
      refine ⟨⟨⟨hreport.jobs, hreport.counts⟩, hscan⟩, fun job' l hl => ?_⟩
      have haccounted := h.accounted job' l hl
      rw [hphase] at haccounted
      exact haccounted
    split
    · exact h.push hscan hjob (by rw [hphase]; rfl) (by rw [hphase]; rfl) fun _ => haccepted scan job hphase rfl
    · exact hrefused _
    · exact hrefused _
  · exact h

/-! ## Reservations -/

/-- A reservation stands in the ledger until a removal, and an id is not reserved again before one. -/
structure Reserves (ledger : List String) (log : List LogEntry) : Prop where
  stands : ∀ caller job l, .scheduled caller job :: l <:+ log →
    job.jobId ∈ ledger ∨ ∃ pass, .removed pass job.jobId ∈ l
  once : ∀ before caller job, before ++ [.scheduled caller job] <+: log →
    ∀ caller' job' l, .scheduled caller' job' :: l <:+ before → job'.jobId = job.jobId →
      ∃ pass, .removed pass job.jobId ∈ l

theorem Reserves.note (h : Reserves ledger log)
    (he : ∀ caller job, e ≠ .scheduled caller job) : Reserves ledger (log ++ [e]) := by
  refine ⟨fun caller job l hl => ?_, fun before caller job hbefore => ?_⟩
  · rcases suffix_snoc.mp hl with ⟨heq, -⟩ | ⟨k, rfl, hk⟩
    · exact absurd heq.symm (he caller job)
    · refine (h.stands caller job k hk).imp_right ?_
      rintro ⟨pass, hpass⟩
      exact ⟨pass, mem_append_left _ hpass⟩
  · rcases prefix_concat_iff.mp hbefore with heq | hbefore
    · obtain ⟨-, hlast⟩ := append_inj' heq rfl
      cases hlast
      exact absurd rfl (he caller job)
    · exact h.once before caller job hbefore

theorem Reserves.remove (h : Reserves ledger log) (pass : Option Nat)
    (jobId : String) : Reserves (ledger.filter (· ≠ jobId)) (log ++ [.removed pass jobId]) := by
  have hnote := h.note (e := .removed pass jobId) (by simp)
  refine ⟨fun caller job l hl => ?_, hnote.once⟩
  rcases suffix_snoc.mp hl with ⟨heq, -⟩ | ⟨k, rfl, hk⟩
  · cases heq
  · by_cases hjob : job.jobId = jobId
    · exact .inr ⟨pass, mem_append_right _ (by simp [hjob])⟩
    · rcases hnote.stands caller job _ hl with hledger | hremoved
      · exact .inl (by simp [hledger, hjob])
      · exact .inr hremoved

theorem Reserves.schedule (h : Reserves ledger log)
    (habsent : job.jobId ∉ ledger) (caller : Caller) :
    Reserves (job.jobId :: ledger) (log ++ [.scheduled caller job]) := by
  refine ⟨fun caller' job' l hl => ?_, fun before caller' job' hbefore caller'' job'' l hl hsame => ?_⟩
  · rcases suffix_snoc.mp hl with ⟨heq, -⟩ | ⟨k, rfl, hk⟩
    · cases heq
      exact .inl mem_cons_self
    · rcases h.stands caller' job' k hk with hledger | ⟨pass, hpass⟩
      · exact .inl (mem_cons_of_mem _ hledger)
      · exact .inr ⟨pass, mem_append_left _ hpass⟩
  · rcases prefix_concat_iff.mp hbefore with heq | hbefore
    · obtain ⟨rfl, hlast⟩ := append_inj' heq rfl
      cases hlast
      rcases h.stands caller'' job'' l hl with hledger | hremoved
      · exact absurd (hsame ▸ hledger) habsent
      · rwa [hsame] at hremoved
    · exact h.once before caller' job' hbefore caller'' job'' l hl hsame

/-! ## The system -/

variable (toLowerCase sha256) in
structure Sound (s : System) : Prop where
  passes : ∀ i p, s.passes[i]? = some p → PassOk toLowerCase sha256 s.log i p
  /-- Only passes that have begun reserve. -/
  begun : ∀ i job, .scheduled (.pass i) job ∈ s.log → i < s.passes.length
  reserves : Reserves s.ledger s.log

theorem Sound.setPass (h : Sound toLowerCase sha256 s)
    (hp : PassOk toLowerCase sha256 s.log i p) : Sound toLowerCase sha256 (s.setPass i p) where
  passes j q hq := by
    rcases getElem?_set_cases hq with ⟨rfl, rfl⟩ | ⟨-, hold⟩
    · exact hp
    · exact h.passes j q hold
  begun j job hjob := by
    simp only [System.setPass, length_set]
    exact h.begun j job hjob
  reserves := h.reserves

theorem Sound.logged (h : Sound toLowerCase sha256 s)
    (he : ∀ caller job, e ≠ .scheduled caller job) : Sound toLowerCase sha256 (s.logged [e]) where
  passes j q hq := (h.passes j q hq).snoc fun job => he _ job
  begun j job hjob := by
    rcases mem_append.mp hjob with hold | hnew
    · exact h.begun j job hold
    · exact absurd (mem_singleton.mp hnew).symm (he _ _)
  reserves := h.reserves.note he

theorem Sound.remove (h : Sound toLowerCase sha256 s) (pass : Option Nat) (jobId : String) :
    Sound toLowerCase sha256 (s.remove pass jobId) where
  passes := (h.logged (e := .removed pass jobId) (by simp)).passes
  begun := (h.logged (e := .removed pass jobId) (by simp)).begun
  reserves := h.reserves.remove pass jobId

theorem Sound.setDispatch (h : Sound toLowerCase sha256 s) (i : Nat) (d : Dispatch) :
    Sound toLowerCase sha256 (s.setDispatch i d) := ⟨h.passes, h.begun, h.reserves⟩

/-- A dispatch reserves, or finds its job reserved. -/
theorem Sound.addIfAbsent_dispatch (h : Sound toLowerCase sha256 s) (i : Nat) (job : ReviewJob) :
    Sound toLowerCase sha256 (s.addIfAbsent (.dispatch i) job) := by
  unfold System.addIfAbsent
  split
  · exact h
  · next habsent =>
    refine ⟨fun j q hq => (h.passes j q hq).snoc (by simp), fun j job' hjob => ?_, h.reserves.schedule habsent _⟩
    rcases mem_append.mp hjob with hold | hnew
    · exact h.begun j job' hold
    · simp at hnew

/-- So does a pass. -/
theorem Sound.addIfAbsent_pass
    (h : Sound toLowerCase sha256 s) (found : s.passes[i]? = some p) (phase : p.phase = .reserving scan job) :
    Sound toLowerCase sha256
      ((s.addIfAbsent (.pass i) job).setPass i
        { p with phase := .reserved scan job (decide (job.jobId ∉ s.ledger)) }) := by
  have hp := h.passes i p found
  have hreport := hp.fits.report
  have hfits := hp.fits.phase
  rw [phase] at hreport hfits
  have hold {log : List LogEntry} {q : Pass} (hq : Accounted log i p) (hjobs : q.jobs = p.jobs)
      (hoptions : q.options = p.options) : Accounted log i q := by
    intro job' l hl
    rw [hjobs, hoptions]
    rcases hq job' l hl with hheld | hrest
    · rw [phase] at hheld
      cases hheld
    · exact .inr hrest
  unfold System.addIfAbsent
  split
  · next hpresent =>
    exact h.setPass ⟨⟨⟨hreport.jobs, hreport.counts⟩, hfits⟩, hold hp.accounted rfl rfl⟩
  · next habsent =>
    have hlog : s.log ⊆ s.log ++ [.scheduled (.pass i) job] := subset_append_left _ _
    refine ⟨fun j q hq => ?_, fun j job' hjob => ?_, h.reserves.schedule habsent _⟩
    · rcases getElem?_set_cases hq with ⟨rfl, rfl⟩ | ⟨hne, hq⟩
      · refine ⟨⟨⟨(hreport.mono hlog).jobs, hreport.counts⟩, hfits.1.mono hlog, hfits.2.mono hlog⟩,
          fun job' l hl => ?_⟩
        rcases suffix_snoc.mp hl with ⟨heq, -⟩ | ⟨k, rfl, hk⟩
        · cases heq
          exact .inl (by simp [PassPhase.holds, habsent])
        · have haccounted : Accounted s.log j
              { p with phase := .reserved scan job (decide (job.jobId ∉ s.ledger)) } := hold hp.accounted rfl rfl
          refine (haccounted job' k hk).imp_right (.imp (mem_append_left _) ?_)
          rintro ⟨hmem, hhanded⟩
          exact ⟨hmem, fun henqueues => mem_append_left _ (hhanded henqueues)⟩
      · exact (h.passes j q hq).snoc fun job' heq => by
          cases heq
          exact hne rfl
    · simp only [System.setPass, length_set]
      rcases mem_append.mp hjob with hjob | hnew
      · exact h.begun j job' hjob
      · simp only [mem_singleton, LogEntry.scheduled.injEq, Caller.pass.injEq] at hnew
        rw [hnew.1]
        exact (List.getElem?_eq_some_iff.mp found).1

theorem Sound.remove_pass {reason : String}
    (h : Sound toLowerCase sha256 s) (found : s.passes[i]? = some p) (phase : p.phase = .releasing scan job reason) :
    Sound toLowerCase sha256
      ((s.remove (some i) job.jobId).setPass i { p with phase := .released scan reason }) := by
  have hp := h.passes i p found
  have hreport := hp.fits.report
  have hfits := hp.fits.phase
  rw [phase] at hreport hfits
  have hlog : s.log ⊆ s.log ++ [.removed (some i) job.jobId] := subset_append_left _ _
  refine (h.remove (some i) job.jobId).setPass
    ⟨⟨⟨(hreport.mono hlog).jobs, hreport.counts⟩, Listed.mono hfits hlog⟩, fun job' l hl => ?_⟩
  rcases suffix_snoc.mp hl with ⟨heq, -⟩ | ⟨k, rfl, hk⟩
  · cases heq
  · rcases hp.accounted job' k hk with hheld | hremoved | ⟨hmem, hhanded⟩
    · rw [phase] at hheld
      cases hheld
      exact .inr (.inl (mem_append_right _ (mem_singleton_self _)))
    · exact .inr (.inl (mem_append_left _ hremoved))
    · exact .inr (.inr ⟨hmem, fun henqueues => mem_append_left _ (hhanded henqueues)⟩)

theorem Sound.list (h : Sound toLowerCase sha256 s) (found : s.passes[i]? = some p)
    (data : Option (List Value)) : Sound toLowerCase sha256 (s.step toLowerCase sha256 maskDiagnostic (.list i data)) := by
  have hp := h.passes i p found
  unfold System.step
  simp only [found]
  split
  · next rawRepo targetRepo entries hphase =>
    have hnoted := h.logged (e := .listed i rawRepo entries) (by simp)
    refine hnoted.setPass ((hp.snoc (by simp)).listed fun rawRepo' targetRepo' entries' hphase' hdata => ?_)
    rw [hphase] at hphase'
    cases hphase'
    cases hdata
    exact mem_append_right _ (mem_singleton_self _)
  · next hnot =>
    exact h.setPass (hp.listed fun rawRepo targetRepo entries hphase hdata =>
      absurd hdata (hnot rawRepo targetRepo entries hphase))

theorem Sound.handoff (h : Sound toLowerCase sha256 s)
    (found : s.passes[i]? = some p) (answer : Handoff) :
    Sound toLowerCase sha256 (s.step toLowerCase sha256 maskDiagnostic (.handoff i answer)) := by
  have hp := h.passes i p found
  unfold System.step
  simp only [found]
  split
  · next scan job hphase =>
    have hnoted := h.logged (e := .handedOver i job) (by simp)
    refine hnoted.setPass ((hp.snoc (by simp)).handedOver fun scan' job' hphase' _ l hl => ?_)
    rw [hphase] at hphase'
    cases hphase'
    rcases suffix_snoc.mp hl with ⟨heq, -⟩ | ⟨k, rfl, -⟩
    · cases heq
    · exact mem_append_right _ (mem_singleton_self _)
  · next hnot =>
    exact h.setPass (hp.handedOver fun scan job hphase hanswer => absurd hanswer (hnot scan job hphase))

theorem sound_step (h : Sound toLowerCase sha256 s) (e : Event) :
    Sound toLowerCase sha256 (s.step toLowerCase sha256 maskDiagnostic e) := by
  cases e with
  | dispatch event options => exact ⟨h.passes, h.begun, h.reserves⟩
  | reconcile options =>
    refine ⟨fun i p hp => ?_, fun i job hjob => ?_, h.reserves⟩
    · rcases getElem?_snoc hp with ⟨rfl, rfl⟩ | hold
      · refine ⟨(nextRepo_fits ⟨by simp, by simp⟩).1, fun job l hl => ?_⟩
        exact absurd (h.begun _ job (hl.subset mem_cons_self)) (lt_irrefl _)
      · exact h.passes i p hold
    · have hlt := h.begun i job hjob
      simp only [System.step, length_append, length_singleton]
      omega
  | list i data =>
    cases found : s.passes[i]? with
    | none => simpa [System.step, found] using h
    | some p => exact h.list found data
  | resolve i answer =>
    cases found : s.passes[i]? with
    | none => simpa [System.step, found] using h
    | some p =>
      simp only [System.step, found]
      exact h.setPass ((h.passes i p found).resolved answer)
  | ledger caller =>
    cases caller with
    | dispatch i =>
      simp only [System.step]
      split
      · exact (h.addIfAbsent_dispatch i _).setDispatch i _
      · exact h
    | pass i =>
      simp only [System.step]
      split
      · exact h
      · next p found =>
        split
        · next scan job phase => exact h.addIfAbsent_pass found phase
        · next scan job reason phase => exact h.remove_pass found phase
        · exact h
  | resume caller =>
    cases caller with
    | dispatch i =>
      simp only [System.step]
      split
      · exact h.setDispatch i _
      · exact h
    | pass i =>
      simp only [System.step]
      split
      · exact h
      · next p found => exact h.setPass (h.passes i p found).resume
  | handoff i answer =>
    cases found : s.passes[i]? with
    | none => simpa [System.step, found] using h
    | some p => exact h.handoff found answer
  | release jobId => exact h.remove none jobId

theorem sound_run (ledger : List String) (events : List Event) :
    Sound toLowerCase sha256
      (Machine.run (System.step toLowerCase sha256 maskDiagnostic) (System.boot ledger) events) := by
  refine Machine.invariant (I := Sound toLowerCase sha256) (fun s e hs => sound_step hs e) ?_ events
  refine ⟨fun i p hp => by simp [System.boot] at hp, fun i job hjob => by simp [System.boot] at hjob,
    fun caller job l hl => by simp [System.boot] at hl, fun before caller job hbefore => by simp [System.boot] at hbefore⟩

variable (toLowerCase sha256 maskDiagnostic) in
/-- Webhook and poll give one generation id, and in every interleaving of dispatches and passes: an id is scheduled once
between two removals, a pass returns jobs of the repositories it polled and accounts for every reservation and for every
entry. -/
theorem generations_converge :
    (∀ platform envelope p installationId source rereviewLabel e, Carries toLowerCase envelope p installationId →
      normalizeEvent toLowerCase platform envelope source rereviewLabel = some e → shouldSchedule e = true →
      ∃ e', reconciliationPollEvent toLowerCase platform p installationId = some e' ∧
        ∀ options, (buildReviewJob toLowerCase sha256 e options).map ReviewJob.jobId =
          (buildReviewJob toLowerCase sha256 e' options).map ReviewJob.jobId) ∧
    ∀ ledger events s, s = Machine.run (System.step toLowerCase sha256 maskDiagnostic) (System.boot ledger) events →
      (∀ before caller job, before ++ [.scheduled caller job] <+: s.log →
        ∀ caller' job' l, .scheduled caller' job' :: l <:+ before → job'.jobId = job.jobId →
          ∃ pass, .removed pass job.jobId ∈ l) ∧
      ∀ i p, s.passes[i]? = some p →
        (∀ job ∈ p.jobs, Belongs toLowerCase sha256 s.log i p.options job) ∧
        (p.phase = .ended →
          (∀ job l, .scheduled (.pass i) job :: l <:+ s.log →
            .removed (some i) job.jobId ∈ l ∨
              (job ∈ p.jobs ∧ (p.options.enqueues = true → .handedOver i job ∈ l))) ∧
          (p.failed = [] → p.discovered = p.jobs.length + p.skipped)) := by
  refine ⟨fun platform envelope p installationId source rereviewLabel e hcarries he hschedules =>
    job_of_envelope hcarries he hschedules, ?_⟩
  rintro ledger events s rfl
  have hsound : Sound toLowerCase sha256 _ := @sound_run _ _ maskDiagnostic ledger events
  refine ⟨hsound.reserves.once, fun i p hp => ?_⟩
  have hok := hsound.passes i p hp
  refine ⟨hok.fits.report.jobs, fun hended => ⟨fun job l hl => ?_, fun hfailed => ?_⟩⟩
  · rcases hok.accounted job l hl with hheld | hrest
    · rw [hended] at hheld
      cases hheld
    · exact hrest
  · have hcounts := hok.fits.report.counts hfailed
    rw [hended] at hcounts
    exact hcounts

end

/-! ## A pull request of a fork -/

def lower (s : String) : String := String.ofList (s.toList.map Char.toLower)

def pullRequest : Value :=
  .object [
    ("number", .number 7), ("id", .number 900),
    ("head", .object [("sha", .string "ABCDEF1"), ("repo", .object [("full_name", .string "fork/project")])]),
    ("base", .object [("sha", .string "0000001"), ("repo", .object [("full_name", .string "Owner/Project")])])]

def opened : Value :=
  .object [
    ("name", .string "pull_request"), ("action", .string "opened"), ("pull_request", pullRequest),
    ("repository", .object [("full_name", .string "owner/project")]), ("installation", .object [("id", .number 42)])]

theorem carries_opened : Carries lower opened pullRequest (.string "42") where
  isObject := rfl
  number := by decide +kernel
  pullRequest := rfl
  issue := rfl
  pullRequests := rfl
  carried := rfl
  repository := by decide +kernel
  installation := by decide +kernel

theorem generations_converge_opened :
    (normalizeEvent lower .github opened .webhook "").isSome = true ∧
      ∀ e, normalizeEvent lower .github opened .webhook "" = some e →
        ∃ e', reconciliationPollEvent lower .github pullRequest (.string "42") = some e' ∧
          ∀ options, (buildReviewJob lower id e options).map ReviewJob.jobId =
            (buildReviewJob lower id e' options).map ReviewJob.jobId := by
  refine ⟨by decide +kernel, fun e he => ?_⟩
  have hschedules : (normalizeEvent lower .github opened .webhook "").all shouldSchedule = true := by decide +kernel
  rw [he] at hschedules
  exact (generations_converge lower id id).1 .github opened pullRequest (.string "42") .webhook "" e carries_opened he
    hschedules

end PrReviewer.Ingress
