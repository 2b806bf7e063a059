import Mathlib.Data.List.Nodup
import PrReviewer.Js.Stretch
import PrReviewer.Publish.Cleanup

/-!
# What a cleanup touches

`hideSupersededManagedReviews` and `retireManagedInlineComments` against any platform, and with any
`mayHide` and `mayDelete` that only read (`Reading`).
-/

namespace PrReviewer.Publish

open Js List

/-! ## Read-only questions -/

abbrev ReadCall : Type := { c : SideCall // (Call.side c).isRead = true }

/-- A function that only reads the platform: what `mayHide` and `mayDelete` are. -/
abbrev Reading (α : Type) := Async ReadCall (fun c => c.1.Reply) Memo α

def Reading.side {α : Type} (p : Reading α) : Side α := p.via Subtype.val (fun _ r => r)

/-! ## The early return for an owner that is not known -/

def retireForOwner (reviews : List PublishReviewRef) (marker : String) (trustedOwner : TrustedOwner)
    (mayDelete : Side Bool) : Side Unit :=
  match trustedOwner.owner with
  | none => return
  | some owner => retireManagedInlineComments reviews marker owner mayDelete

def hideForOwner (api : PublishPlatformApi) (reviews : List PublishReviewRef) (marker : String)
    (trustedOwner : TrustedOwner) (excluded : List String) (mayHide : Side Bool) : Side Unit :=
  match trustedOwner.owner with
  | none => return
  | some owner => hideSupersededManagedReviews api reviews marker owner excluded mayHide

section

variable {E : Type}

abbrev SideEntry (E : Type) := Entry SideCall SideCall.Reply E

def SideCall.Mutates (c : SideCall) : Prop := (Call.side c).isRead = false

/-- Every call of `t` that changes the platform satisfies `Q` with the calls before it. -/
def Changes (Q : List (SideEntry E) → SideCall → Prop) (t : List (SideEntry E)) : Prop :=
  ∀ pre e post, t = pre ++ e :: post → e.call.Mutates → Q pre e.call

/-- The calls of a pass over rows: a stretch for each of the first rows, in their order. -/
inductive Turns {α : Type} (P : α → List (SideEntry E) → List (SideEntry E) → Prop) :
    List α → List (SideEntry E) → List (SideEntry E) → Prop
  | stop {xs h} : Turns P xs h []
  | turn {x xs h t ts} (hx : P x h t) (hxs : Turns P xs (h ++ t) ts) : Turns P (x :: xs) h (t ++ ts)

theorem Turns.mono {α : Type} {P Q : α → List (SideEntry E) → List (SideEntry E) → Prop}
    {xs : List α} {h t : List (SideEntry E)} (ht : Turns P xs h t)
    (hPQ : ∀ x ∈ xs, ∀ h t, P x h t → Q x h t) : Turns Q xs h t := by
  induction ht with
  | stop => exact .stop
  | turn hx _ ih =>
    exact .turn (hPQ _ mem_cons_self _ _ hx) (ih fun x hmem => hPQ x (mem_cons_of_mem _ hmem))

/-- A change of a pass is one of a turn, and what came before it in that turn are the last calls before it. -/
theorem Turns.change {α : Type} {Q : α → List (SideEntry E) → List (SideEntry E) → SideCall → Prop}
    {xs : List α} {h pre post : List (SideEntry E)} {e : SideEntry E}
    (ht : Turns (fun x h => Changes (Q x h)) xs h (pre ++ e :: post)) (hm : e.call.Mutates) :
    ∃ x ∈ xs, ∃ earlier own, pre = earlier ++ own ∧ Q x (h ++ earlier) own e.call := by
  generalize hsplit : pre ++ e :: post = t at ht
  induction ht generalizing pre with
  | stop => simp at hsplit
  | @turn x xs h t ts hx _ ih =>
    rcases append_eq_append_iff.mp hsplit with ⟨mid, rfl, h⟩ | ⟨mid, rfl, h⟩
    · cases mid with
      | nil =>
        obtain ⟨y, hy, earlier, own, hown, hQ⟩ := @ih [] (by simpa using h)
        obtain ⟨rfl, rfl⟩ := append_eq_nil_iff.mp hown.symm
        exact ⟨y, mem_cons_of_mem _ hy, pre, [], by simp, by simpa using hQ⟩
      | cons d mid =>
        simp only [cons_append, List.cons.injEq] at h
        obtain ⟨rfl, -⟩ := h
        exact ⟨x, mem_cons_self, [], pre, rfl, by simpa using hx pre e mid rfl hm⟩
    · obtain ⟨y, hy, earlier, own, rfl, hQ⟩ := ih h.symm
      exact ⟨y, mem_cons_of_mem _ hy, t ++ earlier, own, by simp, by simpa using hQ⟩

variable {w : Service SideCall SideCall.Reply E}

/-- The stretches of a loop are those of its body. -/
theorem forWhile_turns {α : Type} {body : α → Side Bool} {xs : List α} {s s' : Memo}
    {h t : List (SideEntry E)} {r : Except Exn Unit} (hp : (forWhile body xs).Runs w s h t r s') :
    Turns (fun x h t => ∃ s r s', (body x).Runs w s h t r s') xs h t := by
  induction xs generalizing s h t with
  | nil =>
    obtain ⟨rfl, -, -⟩ := Async.Runs.pure_inv hp
    exact .stop
  | cons x xs ih =>
    rcases Async.Runs.bind_inv hp with ⟨more, s₁, t₁, t₂, hx, hxs, rfl⟩ | ⟨e, hx, -⟩
    · refine .turn ⟨_, _, _, hx⟩ ?_
      cases more with
      | true => exact ih hxs
      | false =>
        obtain ⟨rfl, -, -⟩ := Async.Runs.pure_inv hxs
        exact .stop
    · have hone : Turns (fun x h t => ∃ s r s', (body x).Runs w s h t r s') (x :: xs) h (_ ++ []) :=
        .turn ⟨_, _, _, hx⟩ .stop
      rwa [append_nil] at hone

end

/-! ## Whose rows -/

section

variable {E : Type} (marker : String) (owner : TrustedOwnerIdentity)

/-- A review that its marker, its author and its id prove to be the action's. -/
structure Owned (review : PublishReviewRef) : Prop where
  managed : isManagedBody review.body marker = true
  author : ownerMatchesIdentity review.user owner = true
  id : isDecimalId review.id = true

/-- And that is submitted and not the one just published. -/
structure SupersededReview (excluded : List String) (review : PublishReviewRef) : Prop extends
    Owned marker owner review where
  notExcluded : review.id ∉ excluded
  state : ∃ state ∈ HIDEABLE_STATES, review.state = some state

/-- The ways of taking a review away. -/
inductive TakesAway (review : PublishReviewRef) : SideCall → Prop
  | dismiss : TakesAway review (.dismissReview review.id DISMISSAL_MESSAGE)
  | minimize {nodeId} (h : review.node_id = some nodeId) : TakesAway review (.minimizeReview nodeId)
  | delete : TakesAway review (.deleteSupersededReview review.id)

variable (w : Service SideCall SideCall.Reply E)

/-- After the calls `h`, the question was answered yes in the calls `t`. -/
def Answered (ask : Reading Bool) (h t : List (SideEntry E)) : Prop :=
  ∃ s s', ask.side.Runs w s h t (.ok true) s'

/-- The calls end with an enumeration of the review's comments, which gave `listed`, and a yes after it. -/
def AnsweredAfter (ask : Reading Bool) (review : PublishReviewRef) (listed : ManagedInlineComments)
    (h pre : List (SideEntry E)) : Prop :=
  ∃ before m again, pre = before ++ ⟨.listManagedInlineComments [review.id], .ok listed, m⟩ :: again ∧
    Answered w ask (h ++ before ++ [⟨.listManagedInlineComments [review.id], .ok listed, m⟩]) again

/-- What makes a deletion safe: the state, the flag, and an enumeration that is complete and empty and
after which the question was again answered yes. -/
structure Deletable (ask : Reading Bool) (review : PublishReviewRef) (h pre : List (SideEntry E)) :
    Prop where
  state : review.state = some "COMMENTED" ∨ review.state = some "DISMISSED"
  official : review.official = some false
  empty : AnsweredAfter w ask review ⟨true, true, []⟩ h pre

/-- The turn of one review: the calls `t` after the calls `h`. -/
def HideTurn (excluded : List String) (mayHide : Reading Bool) (review : PublishReviewRef)
    (h : List (SideEntry E)) : List (SideEntry E) → Prop :=
  Changes fun pre c =>
    SupersededReview marker owner excluded review ∧ TakesAway review c ∧
      (∃ asked rest, pre = asked ++ rest ∧ Answered w mayHide h asked) ∧
      (c = .deleteSupersededReview review.id → Deletable w mayHide review h pre)

/-- The turn of one comment. -/
def RetireTurn (undiscussed : ManagedInlineCommentRef → ManagedInlineComments → Prop)
    (reviews : List PublishReviewRef) (mayDelete : Reading Bool) (comment : ManagedInlineCommentRef)
    (h : List (SideEntry E)) : List (SideEntry E) → Prop :=
  Changes fun pre c =>
    ∃ review ∈ reviews, Owned marker owner review ∧ comment.reviewId = review.id ∧
      ownerMatchesIdentity comment.user owner = true ∧
      c = .retireInlineComment review.id comment.id ∧
      ∃ fresh, AnsweredAfter w mayDelete review fresh h pre ∧
        fresh.supported = true ∧ fresh.complete = true ∧
        (∀ row ∈ fresh.comments, ownerMatchesIdentity row.user owner = true) ∧
        undiscussed comment fresh

end

/-- No row of the comment shows a discussion. -/
def NoRowDiscussed (comment : ManagedInlineCommentRef) (fresh : ManagedInlineComments) : Prop :=
  ∀ row ∈ fresh.comments, row.id = comment.id → row.isReply = false ∧ row.hasReplies = some false

/-- The first row of the comment, if there is one, shows no discussion. -/
def FirstRowUndiscussed (comment : ManagedInlineCommentRef) (fresh : ManagedInlineComments) : Prop :=
  ∀ row, fresh.comments.find? (fun row => row.id == comment.id) = some row →
    row.isReply = false ∧ row.hasReplies = some false

namespace Changes

variable {E : Type} {Q : List (SideEntry E) → SideCall → Prop} {t t' : List (SideEntry E)}

theorem nil : Changes Q [] := by
  intro pre e post ht
  simp at ht

theorem of_reads (hr : ∀ e ∈ t, ¬ e.call.Mutates) : Changes Q t := by
  rintro pre e post rfl hm
  exact absurd hm (hr e (by simp))

theorem single {e : SideEntry E} (he : e.call.Mutates → Q [] e.call) : Changes Q [e] := by
  intro pre d post ht hm
  cases pre with
  | nil =>
    simp only [nil_append, List.cons.injEq] at ht
    obtain ⟨rfl, -⟩ := ht
    exact he hm
  | cons d pre => simp at ht

theorem append (ht : Changes Q t) (ht' : Changes (fun pre => Q (t ++ pre)) t') :
    Changes Q (t ++ t') := by
  intro pre e post hsplit hm
  rcases append_eq_append_iff.mp hsplit with ⟨mid, rfl, h⟩ | ⟨mid, rfl, h⟩
  · exact ht' mid e post h hm
  · cases mid with
    | nil =>
      have := ht' [] e post (by simpa using h.symm) hm
      simpa using this
    | cons d mid =>
      simp only [cons_append, List.cons.injEq] at h
      obtain ⟨rfl, rfl⟩ := h
      exact ht pre _ mid rfl hm

end Changes

/-! ## The turn of a review -/

/-! The turn in its parts, for the proofs only. -/

/-- What is left of the turn of a review that is not deleted. -/
def dismissAndHide (canMinimize : Bool) (minimized : List String) (review : PublishReviewRef) :
    Side Bool := do
  if liveVerdict (review.state.getD "") then
    let _ ← side (.dismissReview review.id DISMISSAL_MESSAGE)
  if canMinimize && !minimized.contains review.id && review.node_id.getD "" ≠ "" then
    let _ ← side (.minimizeReview (review.node_id.getD ""))
  return true

/-- From the empty enumeration on. -/
def deleteOrHide (canMinimize : Bool) (minimized : List String) (mayHide : Side Bool)
    (review : PublishReviewRef) : Side Bool := do
  let still ← mayHide
  if !still then return false
  else
    let deletion ← tryCatch (side (.deleteSupersededReview review.id))
      (fun e => return ⟨false, some e.message⟩)
    if deletion.ok then return true else dismissAndHide canMinimize minimized review

theorem hideReview_eq (canMinimize canDelete : Bool) (minimized : List String) (mayHide : Side Bool)
    (review : PublishReviewRef) :
    hideReview canMinimize canDelete minimized mayHide review = tryCatch
      (do
        let may ← mayHide
        if !may then return false
        else if canDelete && !canMinimize && deletionEligible review then do
          let listed ← tryCatch (side (.listManagedInlineComments [review.id]))
            (fun _ => return ⟨true, false, []⟩)
          if listed.supported && listed.complete && listed.comments.isEmpty then
            deleteOrHide canMinimize minimized mayHide review
          else dismissAndHide canMinimize minimized review
        else dismissAndHide canMinimize minimized review)
      (fun _ => return false) := rfl

/-- From the fresh enumeration on. -/
def retireAfterListing (owner : TrustedOwnerIdentity) (mayDelete : Side Bool)
    (comment : ManagedInlineCommentRef) (review : PublishReviewRef) (fresh : ManagedInlineComments) :
    Side Bool :=
  if !fresh.supported || !fresh.complete then return false
  else if fresh.comments.any (fun row => !ownerMatchesIdentity row.user owner)
      || (fresh.comments.find? fun row => row.id == comment.id).any
        (fun row => row.hasReplies != some false || row.isReply) then return true
  else do
    let still ← mayDelete
    if !still then return false
    else side (.retireInlineComment review.id comment.id)

/-- The turn of a comment of which something may be asked. -/
def askAndRetire (owner : TrustedOwnerIdentity) (mayDelete : Side Bool)
    (comment : ManagedInlineCommentRef) (review : PublishReviewRef) : Side Bool :=
  tryCatch
    (do
      let may ← mayDelete
      if !may then return false
      else
        let fresh ← side (.listManagedInlineComments [review.id])
        retireAfterListing owner mayDelete comment review fresh)
    (fun _ => return false)

theorem retireComment_eq (owner : TrustedOwnerIdentity) (managed : List PublishReviewRef)
    (foreignReviews : List String) (mayDelete : Side Bool) (comment : ManagedInlineCommentRef) :
    retireComment owner managed foreignReviews mayDelete comment = pure true ∨
      ∃ review, managed.find? (fun r => r.id == comment.reviewId) = some review ∧
        foreignReviews.contains comment.reviewId = false ∧
        retireComment owner managed foreignReviews mayDelete comment =
          askAndRetire owner mayDelete comment review := by
  unfold retireComment
  split
  · exact .inl rfl
  rename_i hforeign
  split
  · exact .inl rfl
  rename_i review hfind
  split
  · exact .inl rfl
  split
  · exact .inl rfl
  exact .inr ⟨review, hfind, by simpa using hforeign, rfl⟩

section

variable {E : Type} {w : Service SideCall SideCall.Reply E} {s s' : Memo} {h t : List (SideEntry E)}

variable {r : Except Exn Bool} {c : SideCall} {canMinimize : Bool}
  {minimized excluded : List String} {review : PublishReviewRef} {mayHide mayDelete : Reading Bool}
  {comment : ManagedInlineCommentRef} {reviews : List PublishReviewRef} {api : PublishPlatformApi}
  {comments : List ManagedInlineCommentRef}

/-- A question changes nothing. -/
theorem reading_reads {ask : Reading Bool} (hp : ask.side.Runs w s h t r s') :
    ∀ e ∈ t, ¬ e.call.Mutates := by
  intro e he hm
  obtain ⟨c, hc⟩ := Async.Runs.via_inv hp e he
  rw [hc, SideCall.Mutates, c.2] at hm
  cases hm

/-- A call that is tried, whatever it answers. -/
theorem tried_calls {f : Exn → c.Reply} {r : Except Exn c.Reply}
    (hp : (tryCatch (side c) (fun e => return f e)).Runs w s h t r s') :
    ∃ reply m, t = [⟨c, reply, m⟩] ∧ ((∃ e, r = .ok (f e)) ∨ r = reply) := by
  rcases Async.Runs.tryCatch_inv hp with ⟨a, hc, rfl⟩ | ⟨e, s₁, t₁, t₂, hc, he, rfl⟩
  · obtain ⟨m, rfl⟩ := Async.Runs.call_inv hc
    exact ⟨_, m, rfl, .inr rfl⟩
  · obtain ⟨m, rfl⟩ := Async.Runs.call_inv hc
    obtain ⟨rfl, rfl, -⟩ := Async.Runs.pure_inv he
    exact ⟨_, m, rfl, .inl ⟨e, rfl⟩⟩

/-- A call that is made if `b`, and what follows it. -/
theorem optional_changes {K : SideCall → Prop} {b : Bool} {p : Side Bool}
    (hc : b = true → K c)
    (hrest : ∀ s h t r, p.Runs w s h t r s' → Changes (fun _ => K) t)
    (hp : Async.Runs (if b then side c >>= fun _ => p else p) w s h t r s') :
    Changes (fun _ => K) t := by
  cases b with
  | false => exact hrest _ _ _ _ hp
  | true =>
    rcases Async.Runs.bind_inv hp with ⟨a, s₁, t₁, t₂, hcall, hafter, rfl⟩ | ⟨e, hcall, -⟩
    · obtain ⟨m, rfl⟩ := Async.Runs.call_inv hcall
      exact Changes.append (.single fun _ => hc rfl) (hrest _ _ _ _ hafter)
    · obtain ⟨m, rfl⟩ := Async.Runs.call_inv hcall
      exact .single fun _ => hc rfl

theorem dismissAndHide_changes
        (hp : (dismissAndHide canMinimize minimized review).Runs w s h t r s') :
    Changes (fun _ c => TakesAway review c ∧ c ≠ .deleteSupersededReview review.id) t := by
  refine optional_changes (fun _ => ⟨.dismiss, nofun⟩) (fun s h t r hp => ?_) hp
  refine optional_changes (fun hnode => ?_) (fun s h t r hp => ?_) hp
  · refine ⟨.minimize ?_, nofun⟩
    cases hid : review.node_id with
    | none => simp [hid] at hnode
    | some nodeId => rfl
  · obtain ⟨rfl, -, -⟩ := Async.Runs.pure_inv hp
    exact .nil

theorem Changes.mono {Q Q' : List (SideEntry E) → SideCall → Prop} (ht : Changes Q t)
    (hQ : ∀ pre c, Q pre c → Q' pre c) : Changes Q' t :=
  fun pre e post hsplit hm => hQ _ _ (ht pre e post hsplit hm)

/-- Nothing is changed before an answer, and nothing at all when it is no. -/
theorem asked_changes {Q : List (SideEntry E) → SideCall → Prop} {ask : Reading Bool} {k : Bool → Side Bool}
    (hp : (ask.side >>= k).Runs w s h t r s') (hno : k false = pure false)
    (hyes : ∀ s₁ asked rest, Answered w ask h asked → (k true).Runs w s₁ (h ++ asked) rest r s' →
      Changes (fun pre => Q (asked ++ pre)) rest) : Changes Q t := by
  rcases Async.Runs.bind_inv hp with ⟨may, s₁, asked, rest, hasked, hp₁, rfl⟩ | ⟨e, hasked, -⟩
  case inr => exact .of_reads (reading_reads hasked)
  refine Changes.append (.of_reads (reading_reads hasked)) ?_
  cases may with
  | false =>
    rw [hno] at hp₁
    obtain ⟨rfl, -, -⟩ := Async.Runs.pure_inv hp₁
    exact .nil
  | true => exact hyes s₁ asked rest ⟨_, _, hasked⟩ hp₁

theorem deleteOrHide_changes {K : List (SideEntry E) → SideCall → Prop}
        (hspare : ∀ pre c, TakesAway review c ∧ c ≠ .deleteSupersededReview review.id → K pre c)
    (hdelete : ∀ again, Answered w mayHide h again → K again (.deleteSupersededReview review.id))
    (hp : (deleteOrHide canMinimize minimized mayHide.side review).Runs w s h t r s') :
    Changes K t := by
  refine asked_changes hp rfl fun s₁ again rest hyes hp₁ => ?_
  have hgone : K (again ++ []) (.deleteSupersededReview review.id) := by
    rw [append_nil]
    exact hdelete again hyes
  rcases Async.Runs.bind_inv hp₁ with ⟨deletion, s₂, t₁, rest, htried, hp₂, rfl⟩ | ⟨e, htried, -⟩
  case inr =>
    obtain ⟨reply, m, rfl, -⟩ := tried_calls htried
    exact .single fun _ => hgone
  obtain ⟨reply, m, rfl, -⟩ := tried_calls htried
  refine Changes.append (.single fun _ => hgone) ?_
  split at hp₂
  · obtain ⟨rfl, -, -⟩ := Async.Runs.pure_inv hp₂
    exact .nil
  · exact (dismissAndHide_changes hp₂).mono fun pre c hc => hspare _ c hc

theorem deletionEligible_iff : deletionEligible review = true ↔
    (review.state = some "COMMENTED" ∨ review.state = some "DISMISSED")
      ∧ review.official = some false := by
  simp [deletionEligible]

theorem hideReview_turn {marker : String} {owner : TrustedOwnerIdentity}
    {canDelete : Bool}
        (hreview : SupersededReview marker owner excluded review)
    (hp : (hideReview canMinimize canDelete minimized mayHide.side review).Runs w s h t r s') :
    HideTurn marker owner w excluded mayHide review h t := by
  rw [hideReview_eq] at hp
  obtain ⟨r₁, s₁, hp₁⟩ := Async.Runs.tryCatch_calls hp fun _ _ _ _ _ _ he =>
    (Async.Runs.pure_inv he).1
  refine asked_changes hp₁ rfl fun s₂ asked rest hyes hp₂ => ?_
  -- what does not delete needs no more than the answer before it
  have hspare : ∀ before c, TakesAway review c ∧ c ≠ .deleteSupersededReview review.id →
      SupersededReview marker owner excluded review ∧ TakesAway review c ∧
        (∃ asked' rest, asked ++ before = asked' ++ rest ∧ Answered w mayHide h asked') ∧
        (c = .deleteSupersededReview review.id →
          Deletable w mayHide review h (asked ++ before)) := by
    rintro before c ⟨haway, hne⟩
    exact ⟨hreview, haway, ⟨asked, before, rfl, hyes⟩, fun heq => absurd heq hne⟩
  simp only [Bool.not_true, Bool.false_eq_true, if_false] at hp₂
  split at hp₂
  case isFalse => exact (dismissAndHide_changes hp₂).mono hspare
  rename_i heligible
  simp only [Bool.and_eq_true, deletionEligible_iff] at heligible
  obtain ⟨-, hstate, hofficial⟩ := heligible
  rcases Async.Runs.bind_inv hp₂ with ⟨listed, s₃, t₁, rest, hlisted, hp₃, rfl⟩ | ⟨e, hlisted, -⟩
  case inr =>
    obtain ⟨reply, m, rfl, -⟩ := tried_calls hlisted
    exact .single nofun
  obtain ⟨reply, m, rfl, hreply⟩ := tried_calls hlisted
  refine Changes.append (.single nofun) ?_
  split at hp₃
  case isFalse => exact (dismissAndHide_changes hp₃).mono fun pre => hspare _
  rename_i hempty
  obtain ⟨supported, complete, comments⟩ := listed
  simp only [Bool.and_eq_true, List.isEmpty_iff] at hempty
  obtain ⟨⟨rfl, rfl⟩, rfl⟩ := hempty
  obtain ⟨e, he⟩ | rfl := hreply
  · cases he
  refine deleteOrHide_changes (fun pre => hspare _) (fun again hagain => ?_) hp₃
  refine ⟨hreview, .delete, ⟨asked, _, rfl, hyes⟩, fun _ => ⟨hstate, hofficial, asked, m, again, ?_, ?_⟩⟩
  · simp
  · simpa using hagain

/-! ## The turn of a comment -/

theorem retireAfterListing_changes {K : List (SideEntry E) → SideCall → Prop}
    {owner : TrustedOwnerIdentity}
    {fresh : ManagedInlineComments}
    (hK : ∀ again, Answered w mayDelete h again → fresh.supported = true → fresh.complete = true →
      (∀ row ∈ fresh.comments, ownerMatchesIdentity row.user owner = true) →
      FirstRowUndiscussed comment fresh → K again (.retireInlineComment review.id comment.id))
    (hp : Async.Runs (retireAfterListing owner mayDelete.side comment review fresh) w s h t r s') :
    Changes K t := by
  unfold retireAfterListing at hp
  split at hp
  · obtain ⟨rfl, -, -⟩ := Async.Runs.pure_inv hp
    exact .nil
  rename_i hlisted
  split at hp
  · obtain ⟨rfl, -, -⟩ := Async.Runs.pure_inv hp
    exact .nil
  rename_i hclear
  simp only [Bool.or_eq_true, Bool.not_eq_true', not_or, Bool.not_eq_false] at hlisted hclear
  obtain ⟨hforeign, hdiscussed⟩ := hclear
  refine asked_changes hp rfl fun s₁ again rest hyes hp₁ => ?_
  obtain ⟨m, rfl⟩ := Async.Runs.call_inv hp₁
  refine .single fun _ => ?_
  rw [append_nil]
  refine hK again hyes hlisted.1 hlisted.2 (fun row hrow => ?_) fun row hrow => ?_
  · simpa using any_eq_false.mp (Bool.eq_false_iff.mpr hforeign) row hrow
  · simp only [hrow, Option.any_some, Bool.or_eq_true, bne_iff_ne, not_or, not_not,
      Bool.not_eq_true] at hdiscussed
    exact ⟨hdiscussed.2, hdiscussed.1⟩

theorem retireComment_turn {marker : String} {owner : TrustedOwnerIdentity}
    {managed : List PublishReviewRef} {foreignReviews : List String}
        (hmanaged : ∀ review ∈ managed, comment.reviewId = review.id →
      foreignReviews.contains comment.reviewId = false →
      review ∈ reviews ∧ Owned marker owner review ∧
        ownerMatchesIdentity comment.user owner = true)
    (hp : (retireComment owner managed foreignReviews mayDelete.side comment).Runs w s h t r s') :
    RetireTurn marker owner w FirstRowUndiscussed reviews mayDelete comment h t := by
  rcases retireComment_eq owner managed foreignReviews mayDelete.side comment with
    heq | ⟨review, hfind, hforeign, heq⟩
  · rw [heq] at hp
    obtain ⟨rfl, -, -⟩ := Async.Runs.pure_inv hp
    exact .nil
  have hid : comment.reviewId = review.id := by
    have := List.find?_some hfind
    exact (eq_of_beq this).symm
  obtain ⟨hmem, howned, hauthor⟩ := hmanaged review (List.mem_of_find?_eq_some hfind) hid hforeign
  rw [heq] at hp
  obtain ⟨r₁, s₁, hp₁⟩ := Async.Runs.tryCatch_calls hp fun _ _ _ _ _ _ he =>
    (Async.Runs.pure_inv he).1
  refine asked_changes hp₁ rfl fun s₂ asked rest hyes hp₂ => ?_
  rcases Async.Runs.bind_inv hp₂ with ⟨fresh, s₃, t₁, rest, hfresh, hp₃, rfl⟩ | ⟨e, hfresh, -⟩
  case inr =>
    obtain ⟨m, rfl⟩ := Async.Runs.call_inv hfresh
    exact .single nofun
  obtain ⟨m, rfl⟩ := Async.Runs.call_inv hfresh
  refine Changes.append (.single nofun) ?_
  refine retireAfterListing_changes (fun again hagain hsup hcomplete hrows hfirst => ?_) hp₃
  refine ⟨review, hmem, howned, hid, hauthor, rfl, fresh, ⟨asked, m, again, ?_, hagain⟩, hsup,
    hcomplete, hrows, hfirst⟩
  simp

/-! ## The passes -/

theorem readMinimized_reads {r : Except Exn (Option (List String))}
    (hp : (readMinimized api).Runs w s h t r s') : ∀ e ∈ t, ¬ e.call.Mutates := by
  unfold readMinimized at hp
  split at hp
  · obtain ⟨r₁, s₁, hp₁⟩ := Async.Runs.tryCatch_calls hp fun _ _ _ _ _ _ he =>
      (Async.Runs.pure_inv he).1
    rcases Async.Runs.bind_inv hp₁ with ⟨a, s₂, t₁, t₂, hcall, hrest, rfl⟩ | ⟨e, hcall, -⟩
    · obtain ⟨m, rfl⟩ := Async.Runs.call_inv hcall
      obtain ⟨rfl, -, -⟩ := Async.Runs.pure_inv hrest
      simp [SideCall.Mutates, Call.isRead]
    · obtain ⟨m, rfl⟩ := Async.Runs.call_inv hcall
      simp [SideCall.Mutates, Call.isRead]
  · obtain ⟨rfl, -, -⟩ := Async.Runs.pure_inv hp
    exact nofun

theorem mem_of_mem_distinctComments
    (h : comment ∈ distinctComments comments) :
    comment ∈ comments := by
  have hfold : ∀ (xs kept : List ManagedInlineCommentRef),
      (∀ c ∈ xs, c ∈ comments) → (∀ c ∈ kept, c ∈ comments) →
      ∀ c ∈ xs.foldl (fun kept c =>
        if kept.any (fun d => d.reviewId == c.reviewId && d.id == c.id) then kept
        else kept ++ [c]) kept, c ∈ comments := by
    intro xs
    induction xs with
    | nil => intro kept _ hkept; simpa using hkept
    | cons x xs ih =>
      intro kept hxs hkept
      rw [foldl_cons]
      refine ih _ (fun c hc => hxs c (mem_cons_of_mem _ hc)) ?_
      split
      · exact hkept
      · intro c hc
        rcases mem_append.mp hc with hc | hc
        · exact hkept c hc
        · rw [mem_singleton.mp hc]
          exact hxs x mem_cons_self
  exact hfold _ [] (fun c hc => mem_of_mem_take hc) nofun comment h

/-- The row stands in a complete enumeration of the calls. -/
def ListedIn (calls : List (SideEntry E)) (comment : ManagedInlineCommentRef) : Prop :=
  ∃ ids listed m, ⟨.listManagedInlineComments ids, .ok listed, m⟩ ∈ calls ∧ listed.complete = true ∧
    comment ∈ listed.comments

/-- A review without a foreign row is one that was asked for, and its rows are the owner's. -/
theorem own_of_not_foreign {owner : TrustedOwnerIdentity} {ids : List String}
        (hmem : comment ∈ comments)
    (h : ((comments.filter fun c => !ids.contains c.reviewId
      || !ownerMatchesIdentity c.user owner).map (·.reviewId)).contains comment.reviewId = false) :
    comment.reviewId ∈ ids ∧ ownerMatchesIdentity comment.user owner = true := by
  by_contra hforeign
  have hin : comment.reviewId ∈ (comments.filter fun c => !ids.contains c.reviewId
      || !ownerMatchesIdentity c.user owner).map (·.reviewId) := by
    refine mem_map.mpr ⟨comment, mem_filter.mpr ⟨hmem, ?_⟩, rfl⟩
    by_cases hid : comment.reviewId ∈ ids
    · simpa [hid] using hforeign
    · simp [hid]
  rw [contains_iff_mem.mpr hin] at h
  cases h

theorem retireManagedInlineComments_turns {marker : String}
    {owner : TrustedOwnerIdentity} {r : Except Exn Unit}
    (hp : (retireManagedInlineComments reviews marker owner mayDelete.side).Runs w s h t r s') :
    ∃ front turns comments, t = front ++ turns ∧ (∀ e ∈ front, ¬ e.call.Mutates) ∧
      (∀ comment ∈ comments, ListedIn front comment) ∧
      Turns (RetireTurn marker owner w FirstRowUndiscussed reviews mayDelete) comments (h ++ front)
        turns := by
  unfold retireManagedInlineComments at hp
  simp only [] at hp
  split at hp
  · obtain ⟨rfl, -, -⟩ := Async.Runs.pure_inv hp
    exact ⟨[], [], [], rfl, nofun, nofun, .stop⟩
  rcases Async.Runs.bind_inv hp with ⟨listed, s₁, t₁, rest, hlisted, hp₁, rfl⟩ | ⟨e, hlisted, -⟩
  case inr =>
    obtain ⟨m, rfl⟩ := Async.Runs.call_inv hlisted
    exact ⟨_, [], [], (append_nil _).symm, by simp [SideCall.Mutates, Call.isRead], nofun, .stop⟩
  obtain ⟨m, rfl⟩ := Async.Runs.call_inv hlisted
  split at hp₁
  · obtain ⟨rfl, -, -⟩ := Async.Runs.pure_inv hp₁
    exact ⟨_, [], [], rfl, by simp [SideCall.Mutates, Call.isRead], nofun, .stop⟩
  rename_i hcomplete
  simp only [Bool.or_eq_true, Bool.not_eq_true', not_or, Bool.not_eq_false] at hcomplete
  refine ⟨_, rest, distinctComments listed.comments, rfl,
    by simp [SideCall.Mutates, Call.isRead], fun comment hcomment => ?_, ?_⟩
  · exact ⟨_, listed, m, mem_singleton_self _, hcomplete.2,
      mem_of_mem_distinctComments hcomment⟩
  refine (forWhile_turns hp₁).mono fun comment hcomment h t ⟨s, r, s', hturn⟩ => ?_
  refine retireComment_turn (fun review hreview hid hforeign => ?_) hturn
  simp only [mem_filter, Bool.and_eq_true] at hreview
  obtain ⟨hmem, hbody, howner⟩ := hreview
  obtain ⟨hasked, hauthor⟩ := own_of_not_foreign (mem_of_mem_distinctComments hcomment) hforeign
  rw [hid] at hasked
  exact ⟨hmem, ⟨hbody, howner, (mem_filter.mp hasked).2⟩, hauthor⟩

theorem hideSupersededManagedReviews_turns
    {marker : String} {owner : TrustedOwnerIdentity}
    {r : Except Exn Unit}
    (hp : (hideSupersededManagedReviews api reviews marker owner excluded mayHide.side).Runs
      w s h t r s') :
    ∃ front turns rows, t = front ++ turns ∧ (∀ e ∈ front, ¬ e.call.Mutates) ∧ rows.Sublist reviews ∧
      Turns (HideTurn marker owner w excluded mayHide) rows (h ++ front) turns := by
  rcases Async.Runs.bind_inv hp with ⟨hidden, s₁, front, rest, hfront, hp₁, rfl⟩ | ⟨e, hfront, -⟩
  case inr => exact ⟨_, [], [], (append_nil _).symm, readMinimized_reads hfront, by simp, .stop⟩
  have hturns := forWhile_turns hp₁
  refine ⟨front, rest, _, rfl, readMinimized_reads hfront,
    (take_sublist _ _).trans filter_sublist, hturns.mono ?_⟩
  intro review hreview h t ⟨s, r, s', hturn⟩
  refine hideReview_turn ?_ hturn
  have heligible := (mem_filter.mp (mem_of_mem_take hreview)).2
  simp only [Bool.and_eq_true] at heligible
  obtain ⟨⟨⟨⟨⟨hid, hexcluded⟩, hstate⟩, hbody⟩, howner⟩, -⟩ := heligible
  refine ⟨⟨hbody, howner, hid⟩, by simpa using hexcluded, ?_⟩
  cases hs : review.state with
  | none => simp [hs, HIDEABLE_STATES] at hstate
  | some state => exact ⟨state, by simpa [hs] using hstate, rfl⟩

end

/-! ## Nothing but what is proven its own -/

section

variable {E : Type} (w : Service SideCall SideCall.Reply E)

/-- What a hiding pass may have done to the platform. -/
def HidesOnlySuperseded (reviews : List PublishReviewRef) (marker : String)
    (owner : Option TrustedOwnerIdentity) (excluded : List String) (mayHide : Reading Bool)
    (run : List (SideEntry E)) : Prop :=
  match owner with
  | none => run = []
  | some owner => ∃ front turns rows, run = front ++ turns ∧ (∀ e ∈ front, ¬ e.call.Mutates) ∧
      rows.Sublist reviews ∧ Turns (HideTurn marker owner w excluded mayHide) rows front turns

/-- What a retiring pass may have done to the platform. -/
def RetiresOnlyOwn (undiscussed : ManagedInlineCommentRef → ManagedInlineComments → Prop)
    (reviews : List PublishReviewRef) (marker : String) (owner : Option TrustedOwnerIdentity)
    (mayDelete : Reading Bool) (run : List (SideEntry E)) : Prop :=
  match owner with
  | none => run = []
  | some owner => ∃ front turns comments, run = front ++ turns ∧ (∀ e ∈ front, ¬ e.call.Mutates) ∧
      (∀ comment ∈ comments, ListedIn front comment) ∧
      Turns (RetireTurn marker owner w undiscussed reviews mayDelete) comments front turns

/-- Every run of the two passes touches only what is proven the action's own. -/
theorem cleanup_touches_only_own (api : PublishPlatformApi) (reviews : List PublishReviewRef)
    (marker : String) (trustedOwner : TrustedOwner) (excluded : List String)
    (mayHide mayDelete : Reading Bool) (s : Memo) :
    HidesOnlySuperseded w reviews marker trustedOwner.owner excluded mayHide
      ((hideForOwner api reviews marker trustedOwner excluded mayHide.side).trace w s) ∧
    RetiresOnlyOwn w FirstRowUndiscussed reviews marker trustedOwner.owner mayDelete
      ((retireForOwner reviews marker trustedOwner mayDelete.side).trace w s) := by
  obtain ⟨owner, reason⟩ := trustedOwner
  cases owner with
  | none => exact ⟨rfl, rfl⟩
  | some owner =>
    constructor
    · obtain ⟨r, s', hp⟩ := Async.runs_trace
        (hideSupersededManagedReviews api reviews marker owner excluded mayHide.side) w s []
      exact hideSupersededManagedReviews_turns hp
    · obtain ⟨r, s', hp⟩ := Async.runs_trace
        (retireManagedInlineComments reviews marker owner mayDelete.side) w s []
      exact retireManagedInlineComments_turns hp

end

/-! ## A comment listed twice -/

namespace ListedTwice

def bot : Option User := some ⟨.string "1", some "bot"⟩

def review : PublishReviewRef where
  id := "7"
  node_id := none
  state := some "COMMENTED"
  body := some "<!-- marker -->"
  user := bot
  submitted_at := none
  updated_at := none
  official := none

def quiet : ManagedInlineCommentRef := ⟨"9", "7", bot, false, some false⟩

def answered : ManagedInlineCommentRef := ⟨"9", "7", bot, false, some true⟩

/-- The second enumeration lists the comment twice, and only its second row shows the reply. -/
def platform : Service SideCall SideCall.Reply Unit
  | [], .listManagedInlineComments _ => (.ok ⟨true, true, [quiet]⟩, ())
  | _, .listManagedInlineComments _ => (.ok ⟨true, true, [quiet, answered]⟩, ())
  | _, .retireInlineComment _ _ => (.ok true, ())
  | _, _ => (.error (error "offline"), ())

def trusted : TrustedOwner := ⟨some (.userId "1"), "integration-user-id"⟩

theorem trace_eq : (retireForOwner [review] "<!-- marker -->" trusted
      (Reading.side (return true))).trace platform none =
    [⟨.listManagedInlineComments ["7"], .ok ⟨true, true, [quiet]⟩, ()⟩,
      ⟨.listManagedInlineComments ["7"], .ok ⟨true, true, [quiet, answered]⟩, ()⟩,
      ⟨.retireInlineComment "7" "9", .ok true, ()⟩] := by
  rfl

end ListedTwice

open ListedTwice in
/-- The comment is retired, although a row of the last enumeration shows the reply. -/
theorem retires_discussed : ¬ ∀ (w : Service SideCall SideCall.Reply Unit)
    (reviews : List PublishReviewRef) (marker : String) (trustedOwner : TrustedOwner)
    (mayDelete : Reading Bool) (s : Memo),
    RetiresOnlyOwn w NoRowDiscussed reviews marker trustedOwner.owner mayDelete
      ((retireForOwner reviews marker trustedOwner mayDelete.side).trace w s) := by
  intro hall
  obtain ⟨front, turns, comments, hrun, hreads, -, hturns⟩ :=
    hall platform [review] "<!-- marker -->" trusted (return true) none
  rw [trace_eq] at hrun
  -- the retirement is the last call, so it is in a turn
  obtain rfl | ⟨turns, e, rfl⟩ := eq_nil_or_concat turns
  · rw [append_nil] at hrun
    subst hrun
    exact hreads ⟨.retireInlineComment "7" "9", .ok true, ()⟩ (by simp) rfl
  rw [concat_eq_append] at hturns hrun
  rw [← append_assoc] at hrun
  obtain ⟨hbefore, hlast⟩ := @append_inj' _ [_, _] _ _ _ hrun rfl
  obtain rfl := singleton_inj.mp hlast
  obtain ⟨comment, -, earlier, own, rfl, hown⟩ := hturns.change rfl
  obtain ⟨r, -, -, -, -, hcall, fresh, ⟨before, m, again, rfl, hagain⟩, -, -, -, hrows⟩ := hown
  -- the question makes no call, so the enumeration before the retirement is the second
  obtain ⟨s, s', hagain⟩ := hagain
  obtain rfl : again = [] := hagain.1.symm
  rw [← append_assoc earlier, ← append_assoc front] at hbefore
  obtain ⟨-, hlisted⟩ := @append_inj' _ [_] _ _ _ hbefore rfl
  injection singleton_inj.mp hlisted with _ hreply
  injection hcall with _ hid
  cases hreply
  have hrow := (hrows answered (by simp) hid).2
  cases hrow

end PrReviewer.Publish
