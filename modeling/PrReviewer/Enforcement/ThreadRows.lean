import Mathlib.Data.List.Induction
import PrReviewer.Enforcement.Forced

/-!
# What the settlement of review threads keeps

`ThreadsSettled` is the fail-closed contract of `applyReviewThreadEnforcement`: earlier findings stay, a
row closes only on evidence, an open row has its finding, and a second application changes nothing.

- `Rows.Consistent`: what the listed rows have to be for it, `threadsSettled_iff`.
- A thread listed twice breaks it (`threads_not_settled`): the set of known ids is read once, before
  the loop, and the settled record of the first row is what the second application is given.
-/

open Js List

namespace PrReviewer.Enforcement

/-! ## The rule of a word -/

/-- The first disposition the model gave for a thread. -/
def firstGiven (a : ReviewArtifact) (threadId : String) : Option Value :=
  (a.threadDispositions.getD []).find? fun entry => (entry.get "thread_id").string? == some threadId

/-- The evidence rule of the two words that close a thread. -/
def passesRule (thread : EnforcementThread) (word : String) (evidence : Option String) : Bool :=
  if word == "fixed" then evidenceCitesCode evidence thread.path
  else word == "withdrawn" && withdrawableCategories.contains (thread.category.getD "")
    && (thread.category.any isAlwaysNonBlockingCategory || !isBlockingSeverity thread.severity)
    && trim (evidence.getD "") != ""

/-- The first given disposition of the row's thread closes it under the rule of its word. -/
def closes (a : ReviewArtifact) (thread : EnforcementThread) : Bool :=
  (firstGiven a thread.threadId).any fun entry =>
    (entry.get "disposition").string?.any fun word =>
      passesRule thread word (entry.get "evidence").string?

def isClosing (disposition : String) : Bool := disposition == "fixed" || disposition == "withdrawn"

/-! ## The contract -/

/-- The rows of the view that are threads. -/
def rowsOf (threads : Option (List (Option EnforcementThread))) : List EnforcementThread :=
  (threads.getD []).reduceOption

/-- The severity a row records, when it is one of the vocabulary. -/
def severityOf (raw : String) : Option Severity :=
  [Severity.blocker, .major, .minor, .info].find? (·.text == raw)

def Severity.rank : Severity → Nat
  | .blocker => 0
  | .major => 1
  | .minor => 2
  | .info => 3

/-- The finding belongs to a listed row and is not above the severity the row records. -/
def FindingOf (rows : List EnforcementThread) (finding : ArtifactFinding) : Prop :=
  ∃ thread ∈ rows, finding.threadId = some thread.threadId ∧
    ∀ recorded, severityOf thread.severity = some recorded → recorded.rank ≤ finding.severity.rank

/-- A record settles its row: it closes the thread under the rule, or the thread has a finding. -/
def Settles (a settled : ReviewArtifact) (thread : EnforcementThread) (record : Value) : Prop :=
  record.get "thread_id" = .string thread.threadId ∧
    ∃ disposition, record.get "disposition" = .string disposition ∧
      if isClosing disposition then
        closes a thread = true ∧ ∃ entry, firstGiven a thread.threadId = some entry ∧
          entry.get "disposition" = .string disposition
      else ∃ finding ∈ settled.openFindings, finding.threadId = some thread.threadId

/-- The thread ids and the words of the records. -/
def dispositionWords (a : ReviewArtifact) : List (Value × Value) :=
  (a.threadDispositions.getD []).map fun record => (record.get "thread_id", record.get "disposition")

/-- The fail-closed contract of the settlement. -/
structure ThreadsSettled (a : ReviewArtifact) (threads : Option (List (Option EnforcementThread)))
    (verdictPolicy : String) : Prop where
  /-- Earlier findings stay in place; what is added is a finding of a listed row, one for each thread. -/
  findings : ∃ added,
    (applyReviewThreadEnforcement a threads verdictPolicy).1.openFindings = a.openFindings ++ added ∧
      (added.map (·.threadId)).Nodup ∧ (∀ finding ∈ added, FindingOf (rowsOf threads) finding) ∧
      ((applyReviewThreadEnforcement a threads verdictPolicy).1.verdict ≠ a.verdict →
        verdictPolicy = "findings_severity_gated" ∧ ∃ finding ∈ added, isBlockingFinding finding = true)
  rows : rowsOf threads ≠ [] → ∃ records,
    (applyReviewThreadEnforcement a threads verdictPolicy).1.threadDispositions = some records ∧
      List.Forall₂ (Settles a (applyReviewThreadEnforcement a threads verdictPolicy).1)
        (rowsOf threads) records
  raises : (applyReviewThreadEnforcement a threads verdictPolicy).1.verdict = a.verdict ∨
    (applyReviewThreadEnforcement a threads verdictPolicy).1.verdict = .requestChanges
  again_words :
    dispositionWords (applyReviewThreadEnforcement
        (applyReviewThreadEnforcement a threads verdictPolicy).1 threads verdictPolicy).1
      = dispositionWords (applyReviewThreadEnforcement a threads verdictPolicy).1
  again_findings :
    (applyReviewThreadEnforcement
        (applyReviewThreadEnforcement a threads verdictPolicy).1 threads verdictPolicy).1.openFindings
      = (applyReviewThreadEnforcement a threads verdictPolicy).1.openFindings
  again_verdict :
    (applyReviewThreadEnforcement
        (applyReviewThreadEnforcement a threads verdictPolicy).1 threads verdictPolicy).1.verdict
      = (applyReviewThreadEnforcement a threads verdictPolicy).1.verdict

/-- Rows of one thread do not get in each other's way: no two of them stay open without an earlier
finding of the thread, and where one closes the first of them closes too. -/
structure Rows.Consistent (a : ReviewArtifact) (rows : List EnforcementThread) : Prop where
  once : rows.Pairwise fun thread later => thread.threadId = later.threadId →
    some thread.threadId ∈ a.openFindings.map (·.threadId) ∨ closes a thread = true ∨ closes a later = true
  first : ∀ thread ∈ rows, closes a thread = true →
    ∀ earliest, rows.find? (·.threadId == thread.threadId) = some earliest → closes a earliest = true

/-! ## The disposition of one row -/

theorem givenBy_get? (key : String) (entries : List Value) (id : String) :
    (givenBy key entries).get? id = entries.find? fun entry => (entry.get key).string? == some id := by
  induction entries using List.reverseRecOn with
  | nil => rfl
  | append_singleton entries entry ih =>
    rw [List.find?_append, ← ih, givenBy, givenBy, foldl_append, foldl_cons, foldl_nil, List.find?_cons]
    generalize List.foldl _ _ entries = given
    cases hid : (entry.get key).string? with
    | none => simp
    | some listed =>
      by_cases hsame : listed = id
      · subst hsame
        cases hgiven : given.get? listed <;> simp [Map.has, hgiven]
      · have hne : (some listed == some id) = false := by simpa using hsame
        dsimp only
        rw [hne]
        split
        · simp
        · rw [Map.get?_set_ne (Ne.symm hsame)]
          simp

variable {thread : EnforcementThread} {known : List String} {finding : ArtifactFinding}

theorem passesRule_word {word : String} {evidence : Option String}
    (h : passesRule thread word evidence = true) : isClosing word = true := by
  unfold passesRule at h
  unfold isClosing
  split at h
  · rename_i hfixed; simp [hfixed]
  · simp only [Bool.and_eq_true] at h
    simp [h.1.1.1]

/-- A word that passes its rule stands, a dispute stands, everything else is open. -/
theorem settleDisposition_fst (thread : EnforcementThread) (word : String) (evidence : Option String) :
    (settleDisposition thread (some word) evidence).1
      = if passesRule thread word evidence || word == "disputed" then word else "open" := by
  unfold settleDisposition passesRule
  by_cases hfixed : word = "fixed"
  · subst hfixed
    cases hcites : evidenceCitesCode evidence thread.path <;> simp [threadDispositions]
  · by_cases hwithdrawn : word = "withdrawn"
    · subst hwithdrawn
      cases hcategory : withdrawableCategories.contains (thread.category.getD "") <;>
        cases hfree : thread.category.any isAlwaysNonBlockingCategory <;>
          cases hblocks : isBlockingSeverity thread.severity <;>
            by_cases hblank : trim (evidence.getD "") = "" <;>
              simp_all [threadDispositions]
    · by_cases hdisputed : word = "disputed"
      · subst hdisputed
        simp [threadDispositions]
      · by_cases hopen : word = "open"
        · subst hopen
          simp [threadDispositions]
        · simp [threadDispositions, hfixed, hwithdrawn, hdisputed, hopen]

def givenEntry (a : ReviewArtifact) (threadId : String) : Value :=
  (firstGiven a threadId).getD (.object [])

def givenWord (a : ReviewArtifact) (threadId : String) : Option String :=
  ((givenEntry a threadId).get "disposition").string?

def givenEvidence (a : ReviewArtifact) (threadId : String) : Option String :=
  ((givenEntry a threadId).get "evidence").string?

theorem closes_eq (a : ReviewArtifact) (thread : EnforcementThread) :
    closes a thread = (givenWord a thread.threadId).any fun word =>
      passesRule thread word (givenEvidence a thread.threadId) := by
  unfold closes givenWord givenEvidence givenEntry
  cases firstGiven a thread.threadId with
  | none => rfl
  | some entry => rfl

/-- The record `applyReviewThreadEnforcement` leaves for a row. -/
def settledOf (a : ReviewArtifact) (thread : EnforcementThread) : SettledThread :=
  settleThread (givenBy "thread_id" (a.threadDispositions.getD [])) thread

theorem settledOf_eq (a : ReviewArtifact) (thread : EnforcementThread) :
    settledOf a thread = ⟨thread.threadId,
      (settleDisposition thread (givenWord a thread.threadId) (givenEvidence a thread.threadId)).1,
      givenEvidence a thread.threadId,
      (settleDisposition thread (givenWord a thread.threadId) (givenEvidence a thread.threadId)).2⟩ := by
  unfold settledOf settleThread
  simp only [givenBy_get?]
  rfl

/-- The disposition of the record. -/
def dispositionOf (a : ReviewArtifact) (thread : EnforcementThread) : String :=
  (settledOf a thread).disposition

theorem dispositionOf_eq (a : ReviewArtifact) (thread : EnforcementThread) :
    dispositionOf a thread
      = (settleDisposition thread (givenWord a thread.threadId) (givenEvidence a thread.threadId)).1 := by
  rw [dispositionOf, settledOf_eq]

theorem dispositionOf_of_closes {a : ReviewArtifact}
    (h : closes a thread = true) :
    givenWord a thread.threadId = some (dispositionOf a thread) ∧
      isClosing (dispositionOf a thread) = true := by
  rw [closes_eq, Option.any_eq_true] at h
  obtain ⟨word, hword, hpasses⟩ := h
  have heq : dispositionOf a thread = word := by
    rw [dispositionOf_eq, hword, settleDisposition_fst, hpasses]
    rfl
  rw [heq]
  exact ⟨hword, passesRule_word hpasses⟩

theorem dispositionOf_of_not {a : ReviewArtifact}
    (h : closes a thread = false) :
    dispositionOf a thread
      = if givenWord a thread.threadId = some "disputed" then "disputed" else "open" := by
  rw [closes_eq, Option.any_eq_false] at h
  rw [dispositionOf_eq]
  cases hword : givenWord a thread.threadId with
  | none => rfl
  | some word =>
    rw [settleDisposition_fst, h word hword]
    by_cases hdisputed : word = "disputed" <;> simp [hdisputed]

/-- A row closes exactly when its word passes its rule. -/
theorem isClosing_dispositionOf (a : ReviewArtifact) (thread : EnforcementThread) :
    isClosing (dispositionOf a thread) = closes a thread := by
  cases h : closes a thread with
  | true => exact (dispositionOf_of_closes h).2
  | false =>
    rw [dispositionOf_of_not h]
    split <;> rfl

/-! ## One application -/

theorem escalateThreads_keeps (a : ReviewArtifact) (reemitted : List ArtifactFinding)
    (verdictPolicy : String) :
    (escalateThreads a reemitted verdictPolicy).threadDispositions = a.threadDispositions ∧
      (escalateThreads a reemitted verdictPolicy).findings = a.findings := by
  unfold escalateThreads
  dsimp only
  split <;> exact ⟨rfl, rfl⟩

theorem escalateThreads_verdict (a : ReviewArtifact) (reemitted : List ArtifactFinding)
    (verdictPolicy : String) (h : (escalateThreads a reemitted verdictPolicy).verdict ≠ a.verdict) :
    verdictPolicy = "findings_severity_gated" ∧
      ∃ finding ∈ reemitted, isBlockingFinding finding = true := by
  unfold escalateThreads at h
  dsimp only at h
  split at h
  · rename_i hgated
    simp only [Bool.and_eq_true, beq_iff_eq, decide_eq_true_eq] at hgated
    obtain ⟨⟨hpolicy, hlength⟩, -⟩ := hgated
    obtain ⟨finding, hfinding⟩ := exists_mem_of_length_pos hlength
    simp only [mem_filter, Bool.and_eq_true, beq_iff_eq] at hfinding
    refine ⟨hpolicy, finding, hfinding.1, ?_⟩
    unfold isBlockingFinding
    rw [hfinding.2.1, hfinding.2.2]
    rfl
  · exact (h rfl).elim

/-- The findings an application adds. -/
def reemittedOf (a : ReviewArtifact) (rows : List EnforcementThread) : List ArtifactFinding :=
  rows.filterMap fun thread =>
    reemit (a.openFindings.filterMap (·.threadId)) thread (settledOf a thread)

section Application

variable (a : ReviewArtifact) (threads : Option (List (Option EnforcementThread)))
variable (verdictPolicy : String)

theorem apply_of_nil (h : rowsOf threads = []) :
    (applyReviewThreadEnforcement a threads verdictPolicy).1 = a := by
  unfold applyReviewThreadEnforcement
  unfold rowsOf at h
  simp [h]

theorem apply_openFindings :
    (applyReviewThreadEnforcement a threads verdictPolicy).1.openFindings
      = a.openFindings ++ reemittedOf a (rowsOf threads) := by
  by_cases hrows : rowsOf threads = []
  · rw [apply_of_nil a threads verdictPolicy hrows, hrows]
    exact (append_nil _).symm
  · unfold applyReviewThreadEnforcement
    unfold rowsOf at hrows
    dsimp only
    split
    · simp_all
    · split
      · rfl
      · unfold ReviewArtifact.openFindings
        rw [(escalateThreads_keeps _ _ _).2]
        rfl

theorem apply_threadDispositions (h : rowsOf threads ≠ []) :
    (applyReviewThreadEnforcement a threads verdictPolicy).1.threadDispositions
      = some ((rowsOf threads).map fun thread => (settledOf a thread).record) := by
  unfold applyReviewThreadEnforcement
  unfold rowsOf at h
  dsimp only
  split
  · simp_all
  · split
    · simp only [map_map]; rfl
    · rw [(escalateThreads_keeps _ _ _).1]
      simp only [map_map]
      rfl

theorem apply_verdict
    (h : (applyReviewThreadEnforcement a threads verdictPolicy).1.verdict ≠ a.verdict) :
    verdictPolicy = "findings_severity_gated" ∧
      ∃ finding ∈ reemittedOf a (rowsOf threads), isBlockingFinding finding = true := by
  unfold applyReviewThreadEnforcement at h
  dsimp only at h
  split at h
  · exact (h rfl).elim
  · split at h
    · exact (h rfl).elim
    · exact escalateThreads_verdict _ _ _ h

end Application

theorem reemit_eq_some {settled : SettledThread}
    (h : reemit known thread settled = some finding) :
    isClosing settled.disposition = false ∧ thread.threadId ∉ known ∧
      finding.threadId = some thread.threadId ∧
      finding.severity = reemittedSeverity thread.severity := by
  unfold reemit at h
  split at h
  · rename_i hopen
    simp only [Bool.and_eq_true, bne_iff_ne, ne_eq, Bool.not_eq_true', contains_eq_mem,
      decide_eq_false_iff_not] at hopen
    cases h
    exact ⟨by simp [isClosing, hopen.1.1, hopen.1.2], hopen.2, rfl, rfl⟩
  · cases h

theorem reemit_isSome {settled : SettledThread}
    (hopen : isClosing settled.disposition = false) (hknown : thread.threadId ∉ known) :
    (reemit known thread settled).isSome = true := by
  unfold isClosing at hopen
  unfold reemit
  rw [if_pos]
  · rfl
  · simp_all

theorem reemittedSeverity_not_above {raw : String} {recorded : Severity}
    (h : severityOf raw = some recorded) : recorded.rank ≤ (reemittedSeverity raw).rank := by
  have htext : recorded.text = raw := by simpa using List.find?_some h
  subst htext
  cases recorded <;> decide

theorem mem_reemittedOf {a : ReviewArtifact} {rows : List EnforcementThread}
    (h : finding ∈ reemittedOf a rows) :
    ∃ thread ∈ rows, closes a thread = false ∧ finding.threadId = some thread.threadId ∧
      finding.severity = reemittedSeverity thread.severity := by
  obtain ⟨thread, hthread, hreemit⟩ := mem_filterMap.mp h
  obtain ⟨hopen, -, hid, hseverity⟩ := reemit_eq_some hreemit
  refine ⟨thread, hthread, ?_, hid, hseverity⟩
  rw [← isClosing_dispositionOf]
  exact hopen

theorem mem_known {a : ReviewArtifact} {threadId : String} :
    threadId ∈ a.openFindings.filterMap (·.threadId) ↔
      some threadId ∈ a.openFindings.map (·.threadId) := by
  simp [mem_filterMap, mem_map]

theorem reemit_isSome_iff (a : ReviewArtifact) (thread : EnforcementThread) :
    (∃ finding, reemit (a.openFindings.filterMap (·.threadId)) thread (settledOf a thread) = some finding)
      ↔ some thread.threadId ∉ a.openFindings.map (·.threadId) ∧ closes a thread = false := by
  rw [← mem_known, ← isClosing_dispositionOf]
  constructor
  · rintro ⟨finding, hfinding⟩
    obtain ⟨hopen, hknown, -, -⟩ := reemit_eq_some hfinding
    exact ⟨hknown, hopen⟩
  · rintro ⟨hknown, hopen⟩
    exact Option.isSome_iff_exists.mp (reemit_isSome hopen hknown)

/-- A row that stays open has a finding of its thread afterwards. -/
theorem open_has_finding (a : ReviewArtifact) (threads : Option (List (Option EnforcementThread)))
    (verdictPolicy : String) {thread : EnforcementThread} (hthread : thread ∈ rowsOf threads)
    (hopen : closes a thread = false) :
    ∃ finding ∈ (applyReviewThreadEnforcement a threads verdictPolicy).1.openFindings,
      finding.threadId = some thread.threadId := by
  rw [apply_openFindings]
  by_cases hknown : some thread.threadId ∈ a.openFindings.map (·.threadId)
  · obtain ⟨finding, hfinding, hid⟩ := mem_map.mp hknown
    exact ⟨finding, mem_append_left _ hfinding, hid⟩
  · obtain ⟨finding, hfinding⟩ := (reemit_isSome_iff a thread).mpr ⟨hknown, hopen⟩
    exact ⟨finding, mem_append_right _ (mem_filterMap.mpr ⟨thread, hthread, hfinding⟩),
      (reemit_eq_some hfinding).2.2.1⟩

/-- What is added has pairwise different thread ids exactly when no two rows of one thread are both
re-emitted. -/
theorem nodup_reemittedOf (a : ReviewArtifact) (rows : List EnforcementThread) :
    ((reemittedOf a rows).map (·.threadId)).Nodup ↔
      rows.Pairwise fun thread later => thread.threadId = later.threadId →
        some thread.threadId ∈ a.openFindings.map (·.threadId) ∨ closes a thread = true ∨
          closes a later = true := by
  unfold List.Nodup reemittedOf
  rw [pairwise_map, pairwise_filterMap]
  refine ⟨fun h => h.imp ?_, fun h => h.imp ?_⟩
  · intro thread later hpair hsame
    by_contra hnone
    simp only [not_or, Bool.not_eq_true] at hnone
    obtain ⟨hknown, hopen, hlater⟩ := hnone
    obtain ⟨finding, hfinding⟩ := (reemit_isSome_iff a thread).mpr ⟨hknown, hopen⟩
    obtain ⟨other, hother⟩ := (reemit_isSome_iff a later).mpr ⟨hsame ▸ hknown, hlater⟩
    refine hpair finding hfinding other hother ?_
    rw [(reemit_eq_some hfinding).2.2.1, (reemit_eq_some hother).2.2.1, hsame]
  · intro thread later hpair finding hfinding other hother heq
    rw [(reemit_eq_some hfinding).2.2.1, (reemit_eq_some hother).2.2.1, Option.some_inj] at heq
    obtain ⟨hknown, hopen⟩ := (reemit_isSome_iff a thread).mp ⟨finding, hfinding⟩
    have hlater := ((reemit_isSome_iff a later).mp ⟨other, hother⟩).2
    rcases hpair heq with h | h | h
    · exact hknown h
    · rw [h] at hopen; cases hopen
    · rw [h] at hlater; cases hlater

/-! ## The second application -/

theorem record_get (settled : SettledThread) :
    settled.record.get "thread_id" = .string settled.threadId ∧
      settled.record.get "disposition" = .string settled.disposition ∧
      (settled.record.get "evidence").string? = settled.evidence := by
  refine ⟨rfl, rfl, ?_⟩
  change (stringOrNull settled.evidence).string? = settled.evidence
  cases settled.evidence <;> rfl

section Again

variable {a settled : ReviewArtifact} {rows : List EnforcementThread}
variable (hsettled : settled.threadDispositions
  = some (rows.map fun thread => (settledOf a thread).record))

include hsettled

/-- The second application is given the record of the first row of a thread. -/
theorem firstGiven_again (threadId : String) :
    firstGiven settled threadId
      = (rows.find? (·.threadId == threadId)).map fun thread => (settledOf a thread).record := by
  unfold firstGiven
  rw [hsettled, Option.getD_some, List.find?_map]
  congr 1

variable {thread earliest : EnforcementThread}

theorem given_again
    (hfirst : rows.find? (·.threadId == thread.threadId) = some earliest) :
    givenWord settled thread.threadId = some (dispositionOf a earliest) ∧
      givenEvidence settled thread.threadId = givenEvidence a thread.threadId := by
  have hid : earliest.threadId = thread.threadId := by simpa using List.find?_some hfirst
  unfold givenWord givenEvidence givenEntry
  rw [firstGiven_again hsettled, hfirst, Option.map_some, Option.getD_some]
  refine ⟨rfl, ?_⟩
  rw [(record_get _).2.2, settledOf_eq, hid]
  rfl

/-- A row ends as before exactly when it closes only where the first row of its thread closes. -/
theorem dispositionOf_again
    (hfirst : rows.find? (·.threadId == thread.threadId) = some earliest) :
    dispositionOf settled thread = dispositionOf a thread ↔
      (closes a thread = true → closes a earliest = true) := by
  have hid : earliest.threadId = thread.threadId := by simpa using List.find?_some hfirst
  obtain ⟨hword, hevidence⟩ := given_again hsettled hfirst
  rw [dispositionOf_eq settled, hword, hevidence]
  cases hearliest : closes a earliest with
  | true =>
    have hgiven := (dispositionOf_of_closes hearliest).1
    rw [hid] at hgiven
    rw [dispositionOf_eq a thread, hgiven]
    simp
  | false =>
    rw [dispositionOf_of_not hearliest, hid]
    cases hthread : closes a thread with
    | false =>
      rw [dispositionOf_of_not hthread]
      simp only [Bool.false_eq_true, false_implies, iff_true]
      split <;> rfl
    | true =>
      have hclosing := (dispositionOf_of_closes hthread).2
      simp only [true_implies, Bool.false_eq_true, iff_false]
      intro heq
      rw [← heq] at hclosing
      split at hclosing
      · change isClosing "disputed" = true at hclosing
        exact absurd hclosing (by decide)
      · change isClosing "open" = true at hclosing
        exact absurd hclosing (by decide)

end Again

/-! ## The contract -/

section Contract

variable (a : ReviewArtifact) (threads : Option (List (Option EnforcementThread)))
variable (verdictPolicy : String)

theorem settles_records :
    List.Forall₂ (Settles a (applyReviewThreadEnforcement a threads verdictPolicy).1) (rowsOf threads)
      ((rowsOf threads).map fun thread => (settledOf a thread).record) := by
  rw [forall₂_map_right_iff, forall₂_same]
  intro thread hthread
  have hid : (settledOf a thread).threadId = thread.threadId := by rw [settledOf_eq]
  refine ⟨by rw [(record_get _).1, hid], dispositionOf a thread, (record_get _).2.1, ?_⟩
  split
  · rename_i hclosing
    rw [isClosing_dispositionOf] at hclosing
    refine ⟨hclosing, ?_⟩
    have hword := (dispositionOf_of_closes hclosing).1
    unfold givenWord givenEntry at hword
    cases hgiven : firstGiven a thread.threadId with
    | none => rw [hgiven] at hword; cases hword
    | some entry =>
      rw [hgiven, Option.getD_some] at hword
      refine ⟨entry, rfl, ?_⟩
      cases hentry : entry.get "disposition" <;> rw [hentry] at hword <;> cases hword
      rfl
  · rename_i hopen
    rw [isClosing_dispositionOf, Bool.not_eq_true] at hopen
    exact open_has_finding a threads verdictPolicy hthread hopen

/-- A second application re-emits no row whose disposition it keeps. -/
theorem reemittedOf_again
    (h : ∀ thread ∈ rowsOf threads,
      dispositionOf (applyReviewThreadEnforcement a threads verdictPolicy).1 thread
        = dispositionOf a thread) :
    reemittedOf (applyReviewThreadEnforcement a threads verdictPolicy).1 (rowsOf threads) = [] := by
  unfold reemittedOf
  rw [filterMap_eq_nil_iff]
  intro thread hthread
  by_contra hsome
  obtain ⟨finding, hfinding⟩ := Option.ne_none_iff_exists'.mp hsome
  obtain ⟨hknown, hopen⟩ := (reemit_isSome_iff _ thread).mp ⟨finding, hfinding⟩
  rw [← isClosing_dispositionOf, h thread hthread, isClosing_dispositionOf] at hopen
  obtain ⟨other, hother, hid⟩ := open_has_finding a threads verdictPolicy hthread hopen
  exact hknown (mem_map.mpr ⟨other, hother, hid⟩)

theorem dispositionWords_apply (h : rowsOf threads ≠ []) :
    dispositionWords (applyReviewThreadEnforcement a threads verdictPolicy).1
      = (rowsOf threads).map fun thread =>
          (Value.string thread.threadId, Value.string (dispositionOf a thread)) := by
  unfold dispositionWords
  rw [apply_threadDispositions a threads verdictPolicy h, Option.getD_some, map_map]
  refine map_congr_left fun thread _ => ?_
  rw [Function.comp_apply, (record_get _).1, (record_get _).2.1, dispositionOf, settledOf_eq]

theorem again_words_iff (hrows : rowsOf threads ≠ []) :
    dispositionWords (applyReviewThreadEnforcement
        (applyReviewThreadEnforcement a threads verdictPolicy).1 threads verdictPolicy).1
      = dispositionWords (applyReviewThreadEnforcement a threads verdictPolicy).1 ↔
    ∀ thread ∈ rowsOf threads,
      dispositionOf (applyReviewThreadEnforcement a threads verdictPolicy).1 thread
        = dispositionOf a thread := by
  rw [dispositionWords_apply _ threads verdictPolicy hrows,
    dispositionWords_apply a threads verdictPolicy hrows, map_inj_left]
  simp

/-- The settlement is fail-closed exactly when the rows of one thread do not get in each other's
way. -/
theorem threadsSettled_iff :
    ThreadsSettled a threads verdictPolicy ↔ Rows.Consistent a (rowsOf threads) := by
  by_cases hrows : rowsOf threads = []
  · have happly := apply_of_nil a threads verdictPolicy hrows
    refine ⟨fun _ => ⟨hrows ▸ List.Pairwise.nil, by simp [hrows]⟩, fun _ => ?_⟩
    exact
      { findings := ⟨[], by rw [happly, append_nil], nodup_nil, by simp, by simp [happly]⟩
        rows := fun h => (h hrows).elim
        raises := .inl (by rw [happly])
        again_words := by rw [happly, happly]
        again_findings := by rw [happly, happly]
        again_verdict := by rw [happly, happly] }
  · have hrecords := apply_threadDispositions a threads verdictPolicy hrows
    have hwords := again_words_iff a threads verdictPolicy hrows
    constructor
    · intro h
      obtain ⟨added, hadded, hnodup, -⟩ := h.findings
      rw [apply_openFindings, append_cancel_left_eq] at hadded
      rw [← hadded, nodup_reemittedOf] at hnodup
      refine ⟨hnodup, fun thread hthread hcloses earliest hfirst => ?_⟩
      have hsame := hwords.mp h.again_words thread hthread
      exact (dispositionOf_again hrecords hfirst).mp hsame hcloses
    · intro h
      have hsame : ∀ thread ∈ rowsOf threads,
          dispositionOf (applyReviewThreadEnforcement a threads verdictPolicy).1 thread
            = dispositionOf a thread := by
        intro thread hthread
        have hfound : ((rowsOf threads).find? (·.threadId == thread.threadId)).isSome = true :=
          List.find?_isSome.mpr ⟨thread, hthread, by simp⟩
        obtain ⟨earliest, hfirst⟩ := Option.isSome_iff_exists.mp hfound
        exact (dispositionOf_again hrecords hfirst).mpr fun hcloses =>
          h.first thread hthread hcloses earliest hfirst
      have hnone := reemittedOf_again a threads verdictPolicy hsame
      exact
        { findings := ⟨reemittedOf a (rowsOf threads), apply_openFindings a threads verdictPolicy,
            (nodup_reemittedOf a _).mpr h.once,
            fun finding hfinding => by
              obtain ⟨thread, hthread, -, hid, hseverity⟩ := mem_reemittedOf hfinding
              exact ⟨thread, hthread, hid, fun recorded hrecorded =>
                hseverity ▸ reemittedSeverity_not_above hrecorded⟩,
            apply_verdict a threads verdictPolicy⟩
          rows := fun _ => ⟨_, hrecords, settles_records a threads verdictPolicy⟩
          raises := applyReviewThreadEnforcement_raises a threads verdictPolicy
          again_words := hwords.mpr hsame
          again_findings := by rw [apply_openFindings _ threads, hnone, append_nil]
          again_verdict := by
            by_contra hverdict
            obtain ⟨-, finding, hfinding, -⟩ := apply_verdict _ threads verdictPolicy hverdict
            rw [hnone] at hfinding
            cases hfinding }

end Contract

/-! ## A thread listed twice -/

/-- A thread the view lists twice and the model gives no disposition for. -/
def listedTwice : List (Option EnforcementThread) :=
  [some { threadId := "PRRT_1", message := "race" }, some { threadId := "PRRT_1", message := "race" }]

/-- It comes back as two findings. -/
theorem threads_not_settled :
    ¬ ThreadsSettled { verdict := .approve } (some listedTwice) "findings_severity_gated" := by
  intro h
  obtain ⟨added, hadded, hnodup, -⟩ := h.findings
  rw [apply_openFindings, append_cancel_left_eq] at hadded
  rw [← hadded, nodup_reemittedOf] at hnodup
  have hpair := (pairwise_cons.mp hnodup).1 { threadId := "PRRT_1", message := "race" }
    (mem_singleton.mpr rfl) rfl
  revert hpair
  decide

end PrReviewer.Enforcement
