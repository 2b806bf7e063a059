import PrReviewer.Publish.Publish

/-!
# What a publication certifies

A run of `publishReview` against a platform whose head moves as it likes and whose calls fail as they
like. `Moment` is what the run does not see: the head at the instant of a call, and whether a
`createReview` created its review. A review is attached to the `commit_id` of its request, or to the
head of that instant if it has none (`Step.review`).

`Certified` is the purpose of the head check and of the guardrails: nothing is written before the
reviewed head was read (`HeadChecked`), a verdict is attached to the reviewed head (`VerdictsBound`),
and an approval meets all the conditions (`ApprovalsEarned`). The bound submission keeps it; the plain
retry, which publishes rather than fails when the diff moved, need not (`uncertified`).
`publication_run` says what every run keeps: a verdict off the reviewed head is that retry, and the
run is certified exactly when no such retry was accepted at another head (`HeadStays`).
-/

namespace PrReviewer.Publish

open Js

/-- What a call did besides its reply. -/
structure Moment where
  head : String
  created : Bool
  deriving DecidableEq, Repr

abbrev Platform := Service Call Call.Reply Moment

abbrev Step := Entry Call Call.Reply Moment

namespace Step

/-- A read of the head that gave `sha`. -/
def readsHead (sha : String) : Step → Bool
  | ⟨.side .getHeadSha, .ok (some head), _⟩ => head == sha
  | _ => false

/-- The review that a call created: its event and the commit it is attached to. -/
def review : Step → Option (NativeReviewEvent × String)
  | ⟨.createReview request, _, m⟩ =>
    if m.created then some (request.event, request.commit_id.getD m.head) else none
  | _ => none

/-- The event of a review that the platform refused to bind to its commit. -/
def refused : Step → Option NativeReviewEvent
  | ⟨.createReview request, .ok result, _⟩ =>
    if request.commit_id.isSome && !result.ok then some request.event else none
  | _ => none

/-- The event of a review that was created without a commit. -/
def plain : Step → Option NativeReviewEvent
  | ⟨.createReview request, _, m⟩ =>
    if request.commit_id = none && m.created then some request.event else none
  | _ => none

end Step

/-- What an approval promises of the run: the mode and the verdict, the scope, the obligations and the
evidence, and a coverage that is complete and known. -/
structure Approvable (input : PublishInput) : Prop where
  mode : input.mode = .review_verdict
  verdict : input.verdict = "approve"
  scope : input.isForkPr = some false ∨ input.approveForks = true
  obligations : isGap input.derivedObligationState = false
  evidence : isGap input.requiredEvidenceState = false
  toolLoop : input.partialCoverage = false
  known : input.coverageUnknown = false
  checks : input.requiredChecks ≠ "incomplete"
  trace : resolveIncompleteReason input = .none
  gates : input.degradedGateBypass = false

/-- No write before a read of the reviewed head. -/
def HeadChecked (input : PublishInput) (t : List Step) : Prop :=
  ∀ pre e post, t = pre ++ e :: post → e.call.isRead = false →
    ∃ r ∈ pre, r.readsHead input.headSha

/-- Every verdict created is attached to the reviewed head. -/
def VerdictsBound (input : PublishInput) (t : List Step) : Prop :=
  ∀ e ∈ t, ∀ event commit, e.review = some (event, commit) → event ≠ .COMMENT →
    commit = input.headSha

/-- Every approval created is one that the input allows. -/
def ApprovalsEarned (input : PublishInput) (t : List Step) : Prop :=
  ∀ e ∈ t, ∀ commit, e.review = some (.APPROVE, commit) → Approvable input

structure Certified (input : PublishInput) (t : List Step) : Prop where
  checked : HeadChecked input t
  bound : VerdictsBound input t
  approved : ApprovalsEarned input t

/-- Every verdict created is attached to the reviewed head, or it is the plain retry of the call
before, which the platform refused to bind, and is attached to the head of that instant. -/
def BoundOrRetried (input : PublishInput) (t : List Step) : Prop :=
  ∀ pre e post event commit, t = pre ++ e :: post → e.review = some (event, commit) →
    event ≠ .COMMENT → commit = input.headSha ∨ commit = e.effect.head ∧ e.plain = some event ∧
      ∃ d, pre.getLast? = some d ∧ d.refused = some event

/-- No verdict that the platform refused to bind is accepted, right after, in its plain form at
another head. -/
def HeadStays (input : PublishInput) (t : List Step) : Prop :=
  ∀ pre e e' post event, t = pre ++ e :: e' :: post → event ≠ .COMMENT →
    e.refused = some event → e'.plain = some event → e'.effect.head = input.headSha

/-! ## The conditions of an approval -/

theorem canApprove_approvable {input : PublishInput} (h : canApprove input = true) :
    Approvable input := by
  simp only [canApprove, evaluateApprovalGuardrails, completeCoverage, Bool.and_eq_true,
    decide_eq_true_eq, Bool.not_eq_true'] at h
  obtain ⟨⟨⟨hmode, ⟨⟨hverdict, hscope⟩, hderived⟩, hevidence⟩, hcover⟩, hgate⟩ := h
  obtain ⟨⟨⟨⟨htool, hunknown⟩, hresult⟩, hreason⟩, -⟩ := hcover
  simp only [hverdict, decide_true, Bool.true_and] at hscope hderived hevidence
  have hchecks : input.requiredChecks ≠ "incomplete" := by
    intro hc
    apply hresult
    by_cases hs : input.verdictPolicy = some "strict"
    · simp [markerReviewResult, strictReviewResult, hs, hverdict, hc]
    · simp [markerReviewResult, hs, hverdict, hc]
  refine ⟨hmode, hverdict, ?_, hderived, hevidence, htool, hunknown, hchecks, hreason, hgate⟩
  cases hf : input.isForkPr with
  | none => simpa [hf] using hscope
  | some fork => cases fork <;> simp_all

theorem nativeEvent_approve {input : PublishInput} (h : nativeEvent input = .APPROVE) :
    canApprove input = true := by
  unfold nativeEvent at h
  split at h
  · cases h
  · split at h
    · assumption
    · cases h

/-! ## What each call may be -/

/-- A verdict is submitted for the reviewed head, or plain right after its bound form was refused;
an approval only if the input allows one. -/
def Permitted (input : PublishInput) (h : List Step) (c : Call) : Prop :=
  ∀ request, c = .createReview request → request.event ≠ .COMMENT →
    (request.commit_id = some input.headSha ∨ request.commit_id = none ∧
      ∃ e, h.getLast? = some e ∧ e.refused = some request.event)
    ∧ (request.event = .APPROVE → canApprove input = true)

theorem permitted_side (input : PublishInput) (h : List Step) (c : SideCall) :
    Permitted input h (.side c) := by
  intro request hr
  cases hr

theorem permitted_comment (input : PublishInput) (h : List Step) {request : NativeReviewRequest}
    (hc : request.event = .COMMENT) : Permitted input h (.createReview request) := by
  rintro _ ⟨⟩ hne
  exact absurd hc hne

theorem side_obeys {α : Type} (input : PublishInput) (p : Side α) :
    Async.Obeys (Permitted input) p.publishing :=
  Async.Obeys.via (permitted_side input) p

theorem submitNativeReview_obeys {input : PublishInput} (hsha : input.headSha ≠ "")
    (body : String) (fallbackBody : Option String) (comments : List NativeReviewComment) :
    Async.Obeys (Permitted input)
      (submitNativeReview (nativeEvent input) body fallbackBody input.headSha comments) := by
  intro s h
  have happrove : nativeEvent input = .APPROVE → canApprove input = true := nativeEvent_approve
  refine Async.obeys_call_bind ?_ fun created m => ?_
  · rintro request ⟨⟩ -
    exact ⟨.inl (by simp [hsha]), happrove⟩
  by_cases hok : created.ok = true
  · rw [if_pos hok]
    trivial
  -- the plain retry, with the refused submission last in the history
  · rw [if_neg hok]
    refine Async.obeys_call_bind ?_ fun plain m' => ?_
    · rintro request ⟨⟩ -
      have hlast : Step.refused ⟨_, .ok created, m⟩ = some (nativeEvent input) := by
        simp [Step.refused, hsha, hok]
      exact ⟨.inr ⟨rfl, _, List.getLast?_concat, hlast⟩, happrove⟩
    · exact Async.Obeys.ite (Async.Obeys.pure _) (Async.Obeys.pure _) s _

theorem publishReviewComment_obeys (input : PublishInput) (surface : NativeReviewSurface)
    (text : Rendering) (routing : Option HumanReviewRoutingPlan) (built : Built) :
    Async.Obeys (Permitted input) (publishReviewComment surface text input routing built) := by
  refine Async.Obeys.bind (side_obeys input _) fun result => ?_
  refine Async.Obeys.ite (Async.Obeys.pure _) (Async.Obeys.ite (Async.Obeys.pure _) ?_)
  refine Async.Obeys.bind ?_ fun submitted => ?_
  · refine Async.Obeys.tryCatch (Async.Obeys.call fun h => ?_) fun e => Async.Obeys.pure _
    exact permitted_comment input h rfl
  · refine Async.Obeys.ite (Async.Obeys.pure _) (Async.Obeys.ite (Async.Obeys.pure _) ?_)
    refine Async.Obeys.bind (side_obeys input _) fun recovery => ?_
    exact Async.Obeys.ite (Async.Obeys.pure _) (Async.Obeys.pure _)

theorem publishNative_obeys {input : PublishInput} (hsha : input.headSha ≠ "")
    (surface : NativeReviewSurface) (text : Rendering) (routing : Option HumanReviewRoutingPlan)
    (built : Built) :
    Async.Obeys (Permitted input) (publishNative surface text input routing built) := by
  refine Async.Obeys.ite (Async.Obeys.pure _) (Async.Obeys.ite ?_ ?_)
  · refine Async.Obeys.bind (side_obeys input _) fun result => ?_
    exact Async.Obeys.ite (Async.Obeys.pure _) (Async.Obeys.pure _)
  · refine Async.Obeys.bind (submitNativeReview_obeys hsha _ _ _) fun submitted => ?_
    refine Async.Obeys.ite (Async.Obeys.pure _) ?_
    exact Async.Obeys.ite (Async.Obeys.pure _) (Async.Obeys.pure _)

theorem publishMode_obeys {input : PublishInput} (hsha : input.headSha ≠ "")
    (surface : NativeReviewSurface) (text : Rendering) (routing : Option HumanReviewRoutingPlan)
    (built : Built) :
    Async.Obeys (Permitted input) (publishMode surface text input routing built) := by
  unfold publishMode
  split
  · refine Async.Obeys.bind (side_obeys input _) fun result => ?_
    exact Async.Obeys.ite (Async.Obeys.pure _) (Async.Obeys.pure _)
  · exact publishReviewComment_obeys input surface text routing built
  all_goals exact publishNative_obeys hsha surface text routing built

theorem publishAtHead_obeys {input : PublishInput} (hsha : input.headSha ≠ "")
    (api : PublishPlatformApi) (text : Rendering) :
    Async.Obeys (Permitted input) (publishAtHead api text input) := by
  refine Async.Obeys.bind (side_obeys input _) fun routing => ?_
  refine Async.Obeys.bind (side_obeys input _) fun built => ?_
  refine Async.Obeys.bind (Async.Obeys.lift _) fun requested => ?_
  refine Async.Obeys.bind (side_obeys input _) fun previous => ?_
  refine Async.Obeys.bind ?_ fun outcome => ?_
  · exact Async.Obeys.tryCatch (publishMode_obeys hsha _ text routing built)
      fun e => Async.Obeys.pure _
  · cases outcome with
    | error result => exact Async.Obeys.pure _
    | ok published =>
      have hend : Async.Obeys (Permitted input)
          (do
            (removeRerunLabel input).publishing
            return (⟨.published, none⟩ : PublishResult)) :=
        Async.Obeys.bind (side_obeys input _) fun _ => Async.Obeys.pure _
      refine Async.Obeys.ite ?_ hend
      exact Async.Obeys.bind (side_obeys input _) fun _ => hend

theorem publishReview_obeys (input : PublishInput) (api : PublishPlatformApi) (text : Rendering) :
    Async.Obeys (Permitted input) (publishReview api text input) := by
  refine Async.Obeys.ite (Async.Obeys.pure _) ?_
  refine Async.Obeys.bind (side_obeys input _) fun head => ?_
  by_cases hempty : head.getD "" = ""
  · rw [if_pos hempty]
    exact Async.Obeys.pure _
  rw [if_neg hempty]
  by_cases hhead : head = some input.headSha
  · subst hhead
    refine Async.Obeys.ite (Async.Obeys.pure _) ?_
    exact publishAtHead_obeys (by simpa using hempty) api text
  · rw [if_pos hhead]
    exact Async.Obeys.pure _

/-! ## Nothing is written before the reviewed head was read -/

/-- A read, or a call after the reviewed head was read. -/
def Checked (input : PublishInput) (h : List Step) (c : Call) : Prop :=
  c.isRead = true ∨ ∃ r ∈ h, r.readsHead input.headSha

/-- A side call and what follows it. -/
theorem obeys_side_bind {G : List Step → Call → Prop} {α : Type} {c : SideCall}
    {f : c.Reply → Publishing α} {s : Memo} {h : List Step} (hc : G h (.side c))
    (hf : ∀ a m, (f a s).Obeys G (h ++ [⟨.side c, .ok a, m⟩])) :
    (((side c).publishing >>= f) s).Obeys G h := by
  refine ⟨hc, fun r m => ?_⟩
  cases r with
  | ok a => exact hf a m
  | error e => trivial

theorem publishReview_checked (input : PublishInput) (api : PublishPlatformApi) (text : Rendering) :
    Async.Obeys (Checked input) (publishReview api text input) := by
  refine Async.Obeys.ite (Async.Obeys.pure _) fun s h => ?_
  refine obeys_side_bind (.inl rfl) fun head m => ?_
  by_cases hempty : head.getD "" = ""
  · rw [if_pos hempty]
    trivial
  rw [if_neg hempty]
  by_cases hhead : head = some input.headSha
  · subst hhead
    -- from here on the read of the reviewed head is in the history
    rw [if_neg (fun hne => hne rfl)]
    let Read (t : List Step) : Prop := ∃ r ∈ t, r.readsHead input.headSha
    have hstays : ∀ t e, Read t → Read (t ++ [e]) := by
      rintro t e ⟨r, hr, hread⟩
      exact ⟨r, by simp [hr], hread⟩
    have hread : Read (h ++ [⟨.side .getHeadSha, .ok (some input.headSha), m⟩]) :=
      ⟨_, List.mem_concat_self, by simp [Step.readsHead]⟩
    exact Pending.Obeys.of_stable hstays (fun t c ht => .inr ht) _ hread
  · rw [if_pos hhead]
    trivial

/-! ## Certified runs -/

variable {e : Step} {event : NativeReviewEvent}

/-- The request behind a created review. -/
theorem review_request {commit : String}
    (hr : e.review = some (event, commit)) :
    ∃ request, e.call = .createReview request ∧ request.event = event ∧
      commit = request.commit_id.getD e.effect.head ∧
      (request.commit_id = none → e.plain = some event) := by
  obtain ⟨c, reply, m⟩ := e
  cases c with
  | side c => simp [Step.review] at hr
  | createReview request =>
    simp only [Step.review, Option.ite_none_right_eq_some, Option.some.injEq, Prod.mk.injEq] at hr
    obtain ⟨hm, rfl, rfl⟩ := hr
    exact ⟨request, rfl, rfl, rfl, fun hnone => by simp [Step.plain, hnone, hm]⟩

theorem plain_review (h : e.plain = some event) :
    e.review = some (event, e.effect.head) := by
  obtain ⟨c, reply, m⟩ := e
  cases c with
  | side c => simp [Step.plain] at h
  | createReview request =>
    simp only [Step.plain, Bool.and_eq_true, decide_eq_true_eq, Option.ite_none_right_eq_some,
      Option.some.injEq] at h
    obtain ⟨⟨hcommit, hm⟩, rfl⟩ := h
    simp [Step.review, hcommit, hm]

variable (api : PublishPlatformApi) (text : Rendering) (input : PublishInput) (w : Platform)
  (s : Memo)

theorem headChecked_run : HeadChecked input ((publishReview api text input).trace w s) := by
  intro pre e post ht hw
  have hchecked := (publishReview_checked input api text).allowed ht
  exact hchecked.resolve_left (by simp [hw])

theorem boundOrRetried_run : BoundOrRetried input ((publishReview api text input).trace w s) := by
  intro pre e post event commit ht hr hne
  obtain ⟨request, hcall, rfl, rfl, hplain⟩ := review_request hr
  have hpermitted := (publishReview_obeys input api text).allowed ht
  obtain ⟨hbound, -⟩ := hpermitted request hcall hne
  rcases hbound with hb | ⟨hb, d, hd, hrefused⟩
  · left
    simp [hb]
  · right
    exact ⟨by simp [hb], hplain hb, d, hd, hrefused⟩

theorem approvalsEarned_run :
    ApprovalsEarned input ((publishReview api text input).trace w s) := by
  intro e he commit hr
  obtain ⟨pre, post, ht⟩ := List.append_of_mem he
  obtain ⟨request, hcall, hevent, -, -⟩ := review_request hr
  have hpermitted := (publishReview_obeys input api text).allowed ht
  obtain ⟨-, happrove⟩ := hpermitted request hcall (by simp [hevent])
  exact canApprove_approvable (happrove hevent)

/-- Given that a verdict off the reviewed head is a retry, the retries decide. -/
theorem verdictsBound_iff {t : List Step} (ht : BoundOrRetried input t) :
    VerdictsBound input t ↔ HeadStays input t := by
  constructor
  · intro hb pre e e' post event hsplit hne _ hplain
    exact hb e' (by simp [hsplit]) event e'.effect.head (plain_review hplain) hne
  · intro hs e he event commit hr hne
    obtain ⟨pre, post, hsplit⟩ := List.append_of_mem he
    rcases ht pre e post event commit hsplit hr hne with hb | ⟨rfl, hplain, d, hd, hrefused⟩
    · exact hb
    · obtain ⟨ds, rfl⟩ := List.getLast?_eq_some_iff.mp hd
      exact hs ds d e post event (by simpa using hsplit) hne hrefused hplain

/-- Every run checks the head before it writes, earns its approvals, and attaches a verdict to another
commit only as the plain retry of a refused one; so it is certified exactly if the head stays for
these retries. -/
theorem publication_run :
    HeadChecked input ((publishReview api text input).trace w s) ∧
    BoundOrRetried input ((publishReview api text input).trace w s) ∧
    ApprovalsEarned input ((publishReview api text input).trace w s) ∧
    (Certified input ((publishReview api text input).trace w s) ↔
      HeadStays input ((publishReview api text input).trace w s)) := by
  have hchecked := headChecked_run api text input w s
  have hretried := boundOrRetried_run api text input w s
  have happroved := approvalsEarned_run api text input w s
  have hiff := verdictsBound_iff input hretried
  refine ⟨hchecked, hretried, happroved, fun hc => hiff.mp hc.bound, fun hs => ?_⟩
  exact ⟨hchecked, hiff.mpr hs, happroved⟩

/-! ## A push between the two submissions -/

/-- GitHub, as the adapter declares it. -/
def gitHub : PublishPlatformApi where
  platform := .github
  nativeReviewSurface := some ⟨true, none⟩
  currentHeadUnavailableReason := none
  supersededReviewDeletion := some ⟨false, none⟩
  hasAuthenticatedIdentity := true
  hasResolveTrustedOwner := true
  hasDeleteSupersededReview := false

/-- Texts without findings. -/
def plainTexts : Rendering where
  readFeedbackState := return []
  buildInlineComments _ := ⟨[], []⟩
  stickyBody _ _ := "review"
  recoveryBody _ _ := "review"
  nativeBody _ _ := "review"
  fallbackBody _ _ := "review"
  dateParse _ := none

/-- A clean approval of the commit `aaa`. -/
def approval : PublishInput where
  mode := .review_verdict
  verdict := "approve"
  verdictPolicy := some "strict"
  headSha := "aaa"
  prNumber := "7"
  commentMarker := "<!-- marker -->"
  requiredChecks := "complete"
  incompleteReason := none
  inlineFindings := true
  findings := .array []
  cleanupPreviousNativeReviews := "false"
  approveForks := false
  isForkPr := some false
  rerunLabel := none
  derivedObligationState := none
  requiredEvidenceState := none
  partialCoverage := false
  coverageUnknown := false
  degradedGateBypass := false
  reviewRouting := none

/-- `bbb` is pushed after the head check; the platform refuses to bind a review to `aaa`, and creates
a plain one. -/
def pushed : Platform
  | _, .side .getHeadSha => (.ok (some "aaa"), ⟨"aaa", false⟩)
  | _, .createReview request =>
    if request.commit_id.isSome then (.ok ⟨false, some "stale", none⟩, ⟨"bbb", false⟩)
    else (.ok ⟨true, none, some "2"⟩, ⟨"bbb", true⟩)
  | _, .side _ => (.error (error "offline"), ⟨"bbb", false⟩)

/-- The approval of `aaa` is attached to `bbb`. -/
theorem uncertified :
    ¬ ∀ (api : PublishPlatformApi) (text : Rendering) (input : PublishInput) (w : Platform)
      (s : Memo), Certified input ((publishReview api text input).trace w s) := by
  intro h
  have hrun : ((publishReview gitHub plainTexts approval).trace pushed none).map Step.review
      = [none, none, some (.APPROVE, "bbb")] := by decide +kernel
  have hmem : some (.APPROVE, "bbb")
      ∈ ((publishReview gitHub plainTexts approval).trace pushed none).map Step.review := by
    simp [hrun]
  obtain ⟨e, he, hr⟩ := List.mem_map.mp hmem
  have hbound := (h gitHub plainTexts approval pushed none).bound e he .APPROVE "bbb" hr nofun
  exact absurd hbound (by decide)

end PrReviewer.Publish
