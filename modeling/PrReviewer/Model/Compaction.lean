import PrReviewer.Model.Conversation

/-!
# Runs of compactions

A run is a list of calls of the two compacting methods over one conversation. Every call keeps the events, their
calls and ids, and a skill whole or discarded (`Kept`). It leaves the newest results and counts what it changed
(`HonestCall`) exactly when it meets `Compaction.Meets`: a truncation finds no result too long that the model is
acting on, and a fold does not write again what the results hold already.
-/

open Js List

namespace PrReviewer.Model

namespace Conversation

/-! ## Calls -/

/-- A result after a truncation. -/
def truncateResult (maxBytesPerResult : Nat) (r : ToolResultEvent) : ToolResultEvent :=
  if (utf8 r.content).length ≤ maxBytesPerResult then r
  else if r.tool = "read_skill" then { r with content := repositorySkillDiscardMarker r.content }
  else { r with content := truncateText r.content maxBytesPerResult }

/-- What `truncateOldestToolResults` returns: the number of results that it changes. -/
def shrunk (c : Conversation) (maxBytesPerResult : Nat) : Nat :=
  c.toolResults.countP fun p => (truncateResult maxBytesPerResult p.2).content ≠ p.2.content

/-- The contents of the results. -/
def contents (c : Conversation) : List String := c.toolResults.map (·.2.content)

def oldResults (c : Conversation) (keepNewest : Nat) : List (Nat × ToolResultEvent) :=
  c.toolResults.take (c.toolResults.length - keepNewest)

def oldSkills (c : Conversation) (keepNewest : Nat) : List (Nat × ToolResultEvent) :=
  (c.oldResults keepNewest).filter fun p => p.2.tool = "read_skill" && !p.2.summarized

def foldable (c : Conversation) (keepNewest : Nat) : List (Nat × ToolResultEvent) :=
  (c.oldResults keepNewest).filter fun p => !p.2.summarized && p.2.tool ≠ "read_skill"

/-- The content of the result that takes the digest. -/
def digestContent (digest : String) : String := "Condensed digest of earlier tool results:\n" ++ digest

def foldedContent : String := "[folded into the condensed digest above]"

def isAssistant : ConversationEvent → Bool
  | .assistantText _ | .assistantToolCalls _ => true
  | _ => false

/-- The number of results that the model has not answered yet. -/
def actedOn (c : Conversation) : Nat :=
  (c.events.reverse.takeWhile fun e => !isAssistant e).countP fun e => (answeredId? e).isSome

end Conversation

open Conversation

inductive Compaction where
  | truncate (maxBytesPerResult : Nat)
  | summarize (summarizeFn : String → Except Exn String) (keepNewest : Nat)

namespace Compaction

/-- What the call returns, nothing where it throws, and the conversation that it leaves. -/
def run (call : Compaction) (c : Conversation) : Option Nat × Conversation :=
  match call with
  | truncate maxBytesPerResult => (some (c.shrunk maxBytesPerResult), c.truncateOldestToolResults maxBytesPerResult)
  | summarize summarizeFn keepNewest =>
    match c.summarizeOldestToolResults summarizeFn keepNewest with
    | .ok (n, c') => (some n, c')
    | .error _ => (none, c)

/-- The number of results that the call promises to leave alone. -/
def newest (call : Compaction) (c : Conversation) : Nat :=
  match call with
  | truncate _ => c.actedOn
  | summarize _ keepNewest => keepNewest

end Compaction

/-! ## The contract -/

/-- What a compaction may do to a result. -/
structure KeptResult (r r' : ToolResultEvent) : Prop where
  callId : r'.callId = r.callId
  isError : r'.isError = r.isError
  provenance : r'.provenance = r.provenance
  tool : r'.tool = r.tool
  evidence : r'.evidence = r.evidence
  skill : r.tool = "read_skill" → r'.content = r.content ∨ ∃ body, r'.content = repositorySkillDiscardMarker body
  folded : r.summarized = true → r'.summarized = true

inductive KeptEvent : ConversationEvent → ConversationEvent → Prop where
  | same (e : ConversationEvent) : KeptEvent e e
  | result {r r' : ToolResultEvent} (h : KeptResult r r') : KeptEvent (.toolResult r) (.toolResult r')

/-- The events keep their number, order and kinds, and only contents of results change. -/
structure Kept (c c' : Conversation) : Prop where
  system : c'.system = c.system
  events : List.Forall₂ KeptEvent c.events c'.events

/-- One call keeps the newest results, folds none a second time, and counts what it changed. -/
structure HonestCall (call : Compaction) (c : Conversation) : Prop where
  newest : (call.run c).2.contents.drop (c.contents.length - call.newest c) =
    c.contents.drop (c.contents.length - call.newest c)
  folded : ∀ summarizeFn keepNewest, call = .summarize summarizeFn keepNewest →
    ∀ p ∈ c.toolResults, p.2.summarized = true → p ∈ (call.run c).2.toolResults
  count : ∀ n, (call.run c).1 = some n → (n = 0 ↔ (call.run c).2.contents = c.contents)

/-- Every call of a run is honest, and every state keeps what the run began with. -/
def HonestRun (start : Conversation) : Conversation → List Compaction → Prop
  | c, [] => Kept start c
  | c, call :: calls => Kept start c ∧ HonestCall call c ∧ HonestRun start (call.run c).2 calls

/-- Truncation leaves the result: it is short enough, or holds what it would be cut to. -/
def isShort (maxBytesPerResult : Nat) (r : ToolResultEvent) : Bool :=
  (utf8 r.content).length ≤ maxBytesPerResult ||
    (if r.tool = "read_skill" then repositorySkillDiscardMarker r.content
      else truncateText r.content maxBytesPerResult) == r.content

def Compaction.Meets (call : Compaction) (c : Conversation) : Prop :=
  match call with
  | .truncate maxBytesPerResult =>
    ∀ p ∈ c.toolResults.drop (c.toolResults.length - c.actedOn), isShort maxBytesPerResult p.2 = true
  | .summarize summarizeFn keepNewest =>
    match c.foldable keepNewest with
    | [] => c.oldSkills keepNewest = [] ∨
        ∃ p ∈ c.oldSkills keepNewest, repositorySkillDiscardMarker p.2.content ≠ p.2.content
    | head :: rest => ∀ answer, summarizeFn (digestBlock (head :: rest)) = .ok answer → trim answer ≠ "" →
        head.2.content ≠ digestContent (trim answer) ∨ (∃ p ∈ rest, p.2.content ≠ foldedContent) ∨
          ∃ p ∈ c.oldSkills keepNewest, repositorySkillDiscardMarker p.2.content ≠ p.2.content

/-- Every call of the run meets its condition. -/
def MeetsRun : Conversation → List Compaction → Prop
  | _, [] => True
  | c, call :: calls => call.Meets c ∧ MeetsRun (call.run c).2 calls

/-! ## The results of a rewritten conversation -/

theorem zipIdx_mapIdx (g : Nat → ConversationEvent → ConversationEvent) (events : List ConversationEvent) (k : Nat) :
    (events.mapIdx fun i e => g (i + k) e).zipIdx k = (events.zipIdx k).map fun p => (g p.2 p.1, p.2) := by
  induction events generalizing k with
  | nil => rfl
  | cons e events ih =>
    have hshift : (fun i e => g (i + 1 + k) e) = fun i e => g (i + (k + 1)) e := by
      funext i e
      rw [Nat.add_assoc, Nat.add_comm 1 k]
    rw [mapIdx_cons, zipIdx_cons, zipIdx_cons, map_cons, hshift, ih, Nat.zero_add]

variable {f : Nat → ToolResultEvent → ToolResultEvent} {c c' : Conversation}

theorem toolResults_rewriteResults (f : Nat → ToolResultEvent → ToolResultEvent) (c : Conversation) :
    (c.rewriteResults f).toolResults = c.toolResults.map fun p => (p.1, f p.1 p.2) := by
  obtain ⟨rewritten, hevents, hresult, hother⟩ : ∃ rewritten : Nat → ConversationEvent → ConversationEvent,
      (c.rewriteResults f).events = c.events.mapIdx rewritten ∧
      (∀ i r, rewritten i (.toolResult r) = .toolResult (f i r)) ∧
      ∀ i e, (∀ r, e ≠ .toolResult r) → rewritten i e = e :=
    ⟨_, rfl, fun _ _ => rfl, fun _ e he => by cases e <;> first | rfl | exact absurd rfl (he _)⟩
  have hzip := zipIdx_mapIdx rewritten c.events 0
  simp only [Nat.add_zero] at hzip
  rw [toolResults, toolResults, hevents, hzip, filterMap_map, map_filterMap]
  congr 1
  funext p
  obtain ⟨e, i⟩ := p
  cases e with
  | toolResult r => simp [hresult]
  | _ => simp [hother]

theorem contents_rewriteResults (f : Nat → ToolResultEvent → ToolResultEvent) (c : Conversation) :
    (c.rewriteResults f).contents = c.toolResults.map fun p => (f p.1 p.2).content := by
  rw [contents, toolResults_rewriteResults, map_map]
  rfl

theorem contents_eq_iff :
    (c.rewriteResults f).contents = c.contents ↔ ∀ p ∈ c.toolResults, (f p.1 p.2).content = p.2.content := by
  rw [contents_rewriteResults, contents, map_inj_left]

/-- The results behind the first `n` keep their contents. -/
theorem drop_contents_iff (n : Nat) :
    (c.rewriteResults f).contents.drop n = c.contents.drop n ↔
      ∀ p ∈ c.toolResults.drop n, (f p.1 p.2).content = p.2.content := by
  rw [contents_rewriteResults, contents, ← map_drop, ← map_drop, map_inj_left]

theorem nodup_places (c : Conversation) : (c.toolResults.map Prod.fst).Nodup := by
  have hzip : c.events.zipIdx.Pairwise fun p q => p.2 ≠ q.2 := by
    rw [← pairwise_map, zipIdx_map_snd]
    exact nodup_range'
  refine pairwise_map.mpr (pairwise_filterMap.mpr (hzip.imp fun {p q} hne x hx y hy => ?_))
  obtain ⟨e, i⟩ := p
  obtain ⟨e', j⟩ := q
  cases e <;> cases hx
  cases e' <;> cases hy
  exact hne

/-- A result is one of those at the places of `ps`. -/
theorem mem_of_place {ps : List (Nat × ToolResultEvent)} (hps : ps ⊆ c.toolResults) {p : Nat × ToolResultEvent}
    (hp : p ∈ c.toolResults) (hplace : p.1 ∈ ps.map Prod.fst) : p ∈ ps := by
  obtain ⟨q, hq, hqp⟩ := mem_map.mp hplace
  rwa [← inj_on_of_nodup_map (nodup_places c) (hps hq) hp hqp]

/-- The newest results are none of the old ones. -/
theorem not_old {keepNewest : Nat} {p : Nat × ToolResultEvent}
    (hp : p ∈ c.toolResults.drop (c.toolResults.length - keepNewest)) : p ∉ c.oldResults keepNewest := by
  intro hold
  have hnodup := (nodup_places c).of_map
  rw [← take_append_drop (c.toolResults.length - keepNewest) c.toolResults] at hnodup
  exact (nodup_append.mp hnodup).2.2 p hold p hp rfl

/-- Rewriting keeps the conversation when it keeps every result. -/
theorem kept_rewriteResults (h : ∀ p ∈ c.toolResults, KeptResult p.2 (f p.1 p.2)) :
    Kept c (c.rewriteResults f) := by
  refine ⟨rfl, ?_⟩
  have hfst : c.events.zipIdx.map Prod.fst = c.events := zipIdx_map_fst 0 c.events
  unfold rewriteResults
  dsimp only
  rw [mapIdx_eq_zipIdx_map]
  conv_lhs => rw [← hfst]
  rw [forall₂_map_left_iff, forall₂_map_right_iff, forall₂_same]
  rintro ⟨e, i⟩ hmem
  cases e with
  | toolResult r => exact .result (h (i, r) (mem_filterMap.mpr ⟨_, hmem, rfl⟩))
  | _ => exact .same _

/-! ## What a fold writes -/

/-- The skills at the places of `skills` are discarded. -/
def discardAt (skills : List (Nat × ToolResultEvent)) (i : Nat) (r : ToolResultEvent) : ToolResultEvent :=
  if (skills.map Prod.fst).contains i then discardSkill r else r

/-- The first result takes the digest and the others refer to it. -/
def foldAt (head : Nat × ToolResultEvent) (rest skills : List (Nat × ToolResultEvent)) (digest : String) (i : Nat)
    (r : ToolResultEvent) : ToolResultEvent :=
  if i = head.1 then { r with content := digestContent digest, summarized := true }
  else if (rest.map Prod.fst).contains i then { r with content := foldedContent, summarized := true }
  else discardAt skills i r

theorem summarizeOldestToolResults_eq (summarizeFn : String → Except Exn String) (keepNewest : Nat) :
    c.summarizeOldestToolResults summarizeFn keepNewest =
      match c.foldable keepNewest with
      | [] => .ok ((c.oldSkills keepNewest).length, c.rewriteResults (discardAt (c.oldSkills keepNewest)))
      | head :: rest => (summarizeFn (digestBlock (head :: rest))).bind fun answer =>
        if trim answer = "" then .ok (0, c)
        else .ok (rest.length + 1 + (c.oldSkills keepNewest).length,
          c.rewriteResults (foldAt head rest (c.oldSkills keepNewest) (trim answer))) := by
  unfold summarizeOldestToolResults
  change (match c.foldable keepNewest with
    | [] => _
    | head :: rest => _) = _
  cases hfoldable : c.foldable keepNewest with
  | nil => rfl
  | cons head rest =>
    have hlength : (c.foldable keepNewest).length = rest.length + 1 := by rw [hfoldable, length_cons]
    dsimp only
    rw [← hfoldable, ← hlength]
    change (summarizeFn (digestBlock (c.foldable keepNewest))).bind _ = _
    cases summarizeFn (digestBlock (c.foldable keepNewest)) with
    | error e => rfl
    | ok answer =>
      change (if trim answer = "" then _ else _) = if trim answer = "" then _ else _
      split <;> rfl

variable {head : Nat × ToolResultEvent} {rest skills : List (Nat × ToolResultEvent)} {digest : String}
  {p : Nat × ToolResultEvent}

theorem discardAt_mem (hp : p ∈ skills) : discardAt skills p.1 p.2 = discardSkill p.2 :=
  if_pos (contains_iff_mem.mpr (mem_map_of_mem hp))

theorem discardAt_not_mem (hskills : skills ⊆ c.toolResults) (hp : p ∈ c.toolResults) (hnot : p ∉ skills) :
    discardAt skills p.1 p.2 = p.2 :=
  if_neg fun hplace => hnot (mem_of_place hskills hp (contains_iff_mem.mp hplace))

theorem foldAt_head : foldAt head rest skills digest head.1 head.2 =
    { head.2 with content := digestContent digest, summarized := true } := if_pos rfl

theorem foldAt_rest (hne : p.1 ≠ head.1) (hp : p ∈ rest) :
    foldAt head rest skills digest p.1 p.2 = { p.2 with content := foldedContent, summarized := true } := by
  rw [foldAt, if_neg hne, if_pos (contains_iff_mem.mpr (mem_map_of_mem hp))]

theorem foldAt_not_mem (hfold : head :: rest ⊆ c.toolResults) (hp : p ∈ c.toolResults) (hnot : p ∉ head :: rest) :
    foldAt head rest skills digest p.1 p.2 = discardAt skills p.1 p.2 := by
  have hplace : p.1 ∉ (head :: rest).map Prod.fst := fun hplace => hnot (mem_of_place hfold hp hplace)
  rw [map_cons, mem_cons, not_or] at hplace
  rw [foldAt, if_neg hplace.1, if_neg fun h => hplace.2 (contains_iff_mem.mp h)]

/-! ## One call -/

section

variable {keepNewest : Nat}

theorem mem_oldSkills : p ∈ c.oldSkills keepNewest ↔
    p ∈ c.oldResults keepNewest ∧ p.2.tool = "read_skill" ∧ p.2.summarized = false := by
  simp [oldSkills]

theorem mem_foldable : p ∈ c.foldable keepNewest ↔
    p ∈ c.oldResults keepNewest ∧ p.2.summarized = false ∧ p.2.tool ≠ "read_skill" := by
  simp [foldable]

theorem oldSkills_subset : c.oldSkills keepNewest ⊆ c.toolResults := fun _ hp =>
  mem_of_mem_take (mem_oldSkills.mp hp).1

theorem foldable_subset : c.foldable keepNewest ⊆ c.toolResults := fun _ hp =>
  mem_of_mem_take (mem_foldable.mp hp).1

/-- What a fold writes to a result: the old ones are discarded or folded, and the others left. -/
theorem foldAt_cases (hfoldable : c.foldable keepNewest = head :: rest) (digest : String) (hp : p ∈ c.toolResults) :
    (p ∈ c.foldable keepNewest ∧ foldAt head rest (c.oldSkills keepNewest) digest p.1 p.2 =
        { p.2 with content := if p = head then digestContent digest else foldedContent, summarized := true }) ∨
      (p ∉ c.foldable keepNewest ∧
        foldAt head rest (c.oldSkills keepNewest) digest p.1 p.2 = discardAt (c.oldSkills keepNewest) p.1 p.2) := by
  have hsubset : head :: rest ⊆ c.toolResults := hfoldable ▸ foldable_subset
  rw [hfoldable]
  by_cases hmem : p ∈ head :: rest
  · refine .inl ⟨hmem, ?_⟩
    by_cases hhead : p = head
    · subst hhead
      rw [if_pos rfl, foldAt_head]
    · have hne : p.1 ≠ head.1 := fun hsame =>
        hhead (inj_on_of_nodup_map (nodup_places c) hp (hsubset mem_cons_self) hsame)
      rw [if_neg hhead, foldAt_rest hne (mem_of_ne_of_mem hhead hmem)]
  · exact .inr ⟨hmem, foldAt_not_mem hsubset hp hmem⟩

theorem discardAt_cases (keepNewest : Nat) (hp : p ∈ c.toolResults) :
    (p ∈ c.oldSkills keepNewest ∧ discardAt (c.oldSkills keepNewest) p.1 p.2 = discardSkill p.2) ∨
      (p ∉ c.oldSkills keepNewest ∧ discardAt (c.oldSkills keepNewest) p.1 p.2 = p.2) := by
  by_cases hmem : p ∈ c.oldSkills keepNewest
  · exact .inl ⟨hmem, discardAt_mem hmem⟩
  · exact .inr ⟨hmem, discardAt_not_mem oldSkills_subset hp hmem⟩

theorem keptResult_refl (r : ToolResultEvent) : KeptResult r r := ⟨rfl, rfl, rfl, rfl, rfl, fun _ => .inl rfl, id⟩

theorem keptResult_truncateResult (n : Nat) (r : ToolResultEvent) : KeptResult r (truncateResult n r) := by
  unfold truncateResult
  split
  · exact keptResult_refl r
  split
  · exact ⟨rfl, rfl, rfl, rfl, rfl, fun _ => .inr ⟨_, rfl⟩, id⟩
  · rename_i hskill
    exact ⟨rfl, rfl, rfl, rfl, rfl, fun h => absurd h hskill, id⟩

theorem keptResult_discardAt (hp : p ∈ c.toolResults) :
    KeptResult p.2 (discardAt (c.oldSkills keepNewest) p.1 p.2) := by
  rcases discardAt_cases keepNewest hp with ⟨-, hdiscard⟩ | ⟨-, hleft⟩
  · rw [hdiscard]
    exact ⟨rfl, rfl, rfl, rfl, rfl, fun _ => .inr ⟨_, rfl⟩, fun _ => rfl⟩
  · rw [hleft]
    exact keptResult_refl _

theorem discardAt_left (hp : p ∈ c.toolResults)
    (hold : p ∉ c.oldResults keepNewest ∨ p.2.summarized = true) :
    discardAt (c.oldSkills keepNewest) p.1 p.2 = p.2 := by
  rcases discardAt_cases keepNewest hp with ⟨hmem, -⟩ | ⟨-, hleft⟩
  · obtain ⟨hold', -, hnew⟩ := mem_oldSkills.mp hmem
    rcases hold with hnot | hsummarized
    · exact absurd hold' hnot
    · rw [hnew] at hsummarized
      cases hsummarized
  · exact hleft

theorem keptResult_foldAt (hfoldable : c.foldable keepNewest = head :: rest) (digest : String)
    (hp : p ∈ c.toolResults) :
    KeptResult p.2 (foldAt head rest (c.oldSkills keepNewest) digest p.1 p.2) := by
  rcases foldAt_cases hfoldable digest hp with ⟨hmem, hfold⟩ | ⟨-, hdiscard⟩
  · rw [hfold]
    exact ⟨rfl, rfl, rfl, rfl, rfl, fun h => absurd h (mem_foldable.mp hmem).2.2, fun _ => rfl⟩
  · rw [hdiscard]
    exact keptResult_discardAt hp

/-- What is rewritten is among the old results and was never folded. -/
theorem foldAt_left (hfoldable : c.foldable keepNewest = head :: rest) (digest : String) (hp : p ∈ c.toolResults)
    (hold : p ∉ c.oldResults keepNewest ∨ p.2.summarized = true) :
    foldAt head rest (c.oldSkills keepNewest) digest p.1 p.2 = p.2 := by
  rcases foldAt_cases hfoldable digest hp with ⟨hmem, -⟩ | ⟨-, hdiscard⟩
  · obtain ⟨hold', hnew, -⟩ := mem_foldable.mp hmem
    rcases hold with hnot | hsummarized
    · exact absurd hold' hnot
    · rw [hnew] at hsummarized
      cases hsummarized
  · rw [hdiscard]
    exact discardAt_left hp hold

end

theorem Kept.refl (c : Conversation) : Kept c c := ⟨rfl, forall₂_same.mpr fun e _ => .same e⟩

/-- The ways a fold can end. -/
theorem run_summarize (summarizeFn : String → Except Exn String) (keepNewest : Nat) (c : Conversation) :
    (c.foldable keepNewest = [] ∧ (Compaction.summarize summarizeFn keepNewest).run c =
      (some (c.oldSkills keepNewest).length, c.rewriteResults (discardAt (c.oldSkills keepNewest)))) ∨
    ∃ head rest, c.foldable keepNewest = head :: rest ∧
      ((∃ e, summarizeFn (digestBlock (head :: rest)) = .error e ∧
          (Compaction.summarize summarizeFn keepNewest).run c = (none, c)) ∨
        ∃ answer, summarizeFn (digestBlock (head :: rest)) = .ok answer ∧
          ((trim answer = "" ∧ (Compaction.summarize summarizeFn keepNewest).run c = (some 0, c)) ∨
            (trim answer ≠ "" ∧ (Compaction.summarize summarizeFn keepNewest).run c =
              (some (rest.length + 1 + (c.oldSkills keepNewest).length),
                c.rewriteResults (foldAt head rest (c.oldSkills keepNewest) (trim answer)))))) := by
  rw [Compaction.run, summarizeOldestToolResults_eq]
  cases hfoldable : c.foldable keepNewest with
  | nil => exact .inl ⟨rfl, rfl⟩
  | cons head rest =>
    refine .inr ⟨head, rest, rfl, ?_⟩
    dsimp only
    cases hanswer : summarizeFn (digestBlock (head :: rest)) with
    | error e => exact .inl ⟨e, rfl, rfl⟩
    | ok answer =>
      refine .inr ⟨answer, rfl, ?_⟩
      rw [Except.bind]
      by_cases hdigest : trim answer = ""
      · exact .inl ⟨hdigest, by rw [if_pos hdigest]⟩
      · exact .inr ⟨hdigest, by rw [if_neg hdigest]⟩

/-- Every call keeps the conversation. -/
theorem kept_run (call : Compaction) (c : Conversation) : Kept c (call.run c).2 := by
  cases call with
  | truncate n => exact kept_rewriteResults fun p _ => keptResult_truncateResult n p.2
  | summarize summarizeFn keepNewest =>
    rcases run_summarize summarizeFn keepNewest c with
      ⟨-, hrun⟩ | ⟨head, rest, hfoldable, ⟨e, -, hrun⟩ | ⟨answer, -, ⟨-, hrun⟩ | ⟨-, hrun⟩⟩⟩ <;> rw [hrun]
    · exact kept_rewriteResults fun p hp => keptResult_discardAt hp
    · exact .refl c
    · exact .refl c
    · exact kept_rewriteResults fun p hp => keptResult_foldAt hfoldable _ hp

/-! ## Honest calls -/

theorem truncateResult_content_iff (n : Nat) (r : ToolResultEvent) :
    (truncateResult n r).content = r.content ↔ isShort n r = true := by
  unfold truncateResult isShort
  split
  · next hle => exact iff_of_true rfl (by rw [decide_eq_true hle, Bool.true_or])
  · next hle =>
    rw [decide_eq_false hle, Bool.false_or, beq_iff_eq]
    split <;> exact Iff.rfl

theorem honest_truncate_iff (n : Nat) (c : Conversation) :
    HonestCall (.truncate n) c ↔ (Compaction.truncate n).Meets c := by
  have hlength : c.contents.length = c.toolResults.length := length_map _
  have hnewest : ((Compaction.truncate n).run c).2.contents.drop (c.contents.length - c.actedOn) =
      c.contents.drop (c.contents.length - c.actedOn) ↔ (Compaction.truncate n).Meets c := by
    refine (drop_contents_iff _).trans ?_
    rw [hlength]
    exact forall₂_congr fun p _ => truncateResult_content_iff n p.2
  refine ⟨fun h => hnewest.mp h.newest, fun h => ⟨hnewest.mpr h, nofun, ?_⟩⟩
  rintro _ ⟨⟩
  rw [shrunk, countP_eq_zero]
  refine Iff.trans ?_ contents_eq_iff.symm
  refine forall₂_congr fun p _ => ?_
  rw [decide_eq_true_eq, not_not]
  exact Iff.rfl

/-- A fold writes nothing new when the results hold already what it writes. -/
theorem foldAt_same_iff {keepNewest : Nat} (hfoldable : c.foldable keepNewest = head :: rest) (digest : String) :
    (∀ p ∈ c.toolResults, (foldAt head rest (c.oldSkills keepNewest) digest p.1 p.2).content = p.2.content) ↔
      ¬(head.2.content ≠ digestContent digest ∨ (∃ p ∈ rest, p.2.content ≠ foldedContent) ∨
        ∃ p ∈ c.oldSkills keepNewest, repositorySkillDiscardMarker p.2.content ≠ p.2.content) := by
  have hnodup : (head :: rest).Nodup := hfoldable ▸
    ((nodup_places c).of_map.sublist ((filter_sublist (p := _)).trans (take_sublist _ _)))
  push Not
  constructor
  · intro hsame
    have hfold : ∀ p ∈ c.foldable keepNewest,
        (if p = head then digestContent digest else foldedContent) = p.2.content := by
      intro p hp
      rcases foldAt_cases hfoldable digest (foldable_subset hp) with ⟨-, hwritten⟩ | ⟨hnot, -⟩
      · rw [← hsame p (foldable_subset hp), hwritten]
      · exact absurd hp hnot
    rw [hfoldable, forall_mem_cons, if_pos rfl] at hfold
    refine ⟨hfold.1.symm, fun p hp => ?_, fun p hp => ?_⟩
    · have hne : p ≠ head := fun hsame => (nodup_cons.mp hnodup).1 (hsame ▸ hp)
      rw [← hfold.2 p hp, if_neg hne]
    · have hskill := (mem_oldSkills.mp hp).2.1
      rcases foldAt_cases hfoldable digest (oldSkills_subset hp) with ⟨hmem, -⟩ | ⟨-, hwritten⟩
      · exact absurd hskill (mem_foldable.mp hmem).2.2
      · have hheld := hsame p (oldSkills_subset hp)
        rw [hwritten, discardAt_mem hp] at hheld
        exact hheld
  · rintro ⟨hhead, hrest, hskills⟩ p hp
    rcases foldAt_cases hfoldable digest hp with ⟨hmem, hwritten⟩ | ⟨-, hwritten⟩
    · rw [hwritten]
      dsimp only
      rw [hfoldable, mem_cons] at hmem
      split
      · next hsame => rw [hsame, hhead]
      · next hne => exact (hrest p (hmem.resolve_left hne)).symm
    · rw [hwritten]
      rcases discardAt_cases keepNewest hp with ⟨hmem, hdiscard⟩ | ⟨-, hleft⟩
      · rw [hdiscard]
        exact hskills p hmem
      · rw [hleft]

/-- A fold that leaves the conversation and does not count is honest. -/
theorem honestCall_of_left {call : Compaction} (hleft : (call.run c).2 = c) (hcount : ∀ n, (call.run c).1 = some n → n = 0) :
    HonestCall call c := by
  refine ⟨by rw [hleft], fun _ _ _ p hp _ => by rwa [hleft], fun n hn => ?_⟩
  rw [hleft]
  exact iff_of_true (hcount n hn) rfl

/-- A fold that leaves the newest results and those folded before is honest when it counts what it changed. -/
theorem honestCall_rewrite_iff {summarizeFn : String → Except Exn String} {keepNewest n : Nat}
    {f : Nat → ToolResultEvent → ToolResultEvent}
    (hrun : (Compaction.summarize summarizeFn keepNewest).run c = (some n, c.rewriteResults f))
    (hleft : ∀ p ∈ c.toolResults, p ∉ c.oldResults keepNewest ∨ p.2.summarized = true → f p.1 p.2 = p.2) :
    HonestCall (.summarize summarizeFn keepNewest) c ↔
      (n = 0 ↔ ∀ p ∈ c.toolResults, (f p.1 p.2).content = p.2.content) := by
  have hlength : c.contents.length = c.toolResults.length := length_map _
  constructor
  · intro h
    have hcount := h.count n (by rw [hrun])
    rwa [hrun, contents_eq_iff] at hcount
  · intro hcount
    refine ⟨?_, fun _ _ hcall p hp hfolded => ?_, fun m hm => ?_⟩
    · rw [hrun, hlength]
      refine (drop_contents_iff _).mpr fun p hp => ?_
      rw [hleft p (mem_of_mem_drop hp) (.inl (not_old hp))]
    · rw [hrun, toolResults_rewriteResults]
      exact mem_map.mpr ⟨p, hp, by rw [hleft p hp (.inr hfolded)]⟩
    · rw [hrun] at hm ⊢
      cases hm
      rwa [contents_eq_iff]

theorem honest_summarize_iff (summarizeFn : String → Except Exn String) (keepNewest : Nat) (c : Conversation) :
    HonestCall (.summarize summarizeFn keepNewest) c ↔ (Compaction.summarize summarizeFn keepNewest).Meets c := by
  rcases run_summarize summarizeFn keepNewest c with
    ⟨hfoldable, hrun⟩ | ⟨head, rest, hfoldable, hend⟩
  · refine (honestCall_rewrite_iff hrun fun p hp => discardAt_left hp).trans ?_
    have hsame : (∀ p ∈ c.toolResults, (discardAt (c.oldSkills keepNewest) p.1 p.2).content = p.2.content) ↔
        ∀ p ∈ c.oldSkills keepNewest, repositorySkillDiscardMarker p.2.content = p.2.content := by
      refine ⟨fun h p hp => ?_, fun h p hp => ?_⟩
      · have hheld := h p (oldSkills_subset hp)
        rw [discardAt_mem hp] at hheld
        exact hheld
      · rcases discardAt_cases keepNewest hp with ⟨hmem, hdiscard⟩ | ⟨-, hleft⟩
        · rw [hdiscard]
          exact h p hmem
        · rw [hleft]
    rw [hsame, length_eq_zero_iff, Compaction.Meets, hfoldable]
    dsimp only
    by_cases hskills : c.oldSkills keepNewest = []
    · simp [hskills]
    · simp [hskills]
  · rw [Compaction.Meets, hfoldable]
    dsimp only
    rcases hend with ⟨e, hanswer, hrun⟩ | ⟨answer, hanswer, ⟨hdigest, hrun⟩ | ⟨hdigest, hrun⟩⟩
    · refine iff_of_true (honestCall_of_left (by rw [hrun]) (by rw [hrun]; nofun)) ?_
      rw [hanswer]
      nofun
    · refine iff_of_true (honestCall_of_left (by rw [hrun]) (by rw [hrun]; rintro _ ⟨⟩; rfl)) ?_
      rw [hanswer]
      rintro _ ⟨⟩ hne
      exact absurd hdigest hne
    · refine (honestCall_rewrite_iff hrun fun p hp => foldAt_left hfoldable _ hp).trans ?_
      rw [foldAt_same_iff hfoldable]
      have hpos : ¬rest.length + 1 + (c.oldSkills keepNewest).length = 0 := by omega
      rw [iff_false_left hpos, not_not]
      refine ⟨?_, fun h => h answer hanswer hdigest⟩
      rw [hanswer]
      rintro h _ ⟨⟩ -
      exact h

theorem honestCall_iff (call : Compaction) (c : Conversation) : HonestCall call c ↔ call.Meets c := by
  cases call with
  | truncate n => exact honest_truncate_iff n c
  | summarize summarizeFn keepNewest => exact honest_summarize_iff summarizeFn keepNewest c

/-! ## Runs -/

theorem KeptResult.trans {r r' r'' : ToolResultEvent} (h : KeptResult r r') (h' : KeptResult r' r'') :
    KeptResult r r'' where
  callId := h'.callId.trans h.callId
  isError := h'.isError.trans h.isError
  provenance := h'.provenance.trans h.provenance
  tool := h'.tool.trans h.tool
  evidence := h'.evidence.trans h.evidence
  skill hskill := (h'.skill (h.tool.trans hskill)).elim (fun hsame => hsame ▸ h.skill hskill) .inr
  folded hfolded := h'.folded (h.folded hfolded)

theorem KeptEvent.trans {e e' e'' : ConversationEvent} (h : KeptEvent e e') (h' : KeptEvent e' e'') :
    KeptEvent e e'' := by
  cases h with
  | same => exact h'
  | result h =>
    cases h' with
    | same => exact .result h
    | result h' => exact .result (h.trans h')

theorem Kept.trans {c'' : Conversation} (h : Kept c c') (h' : Kept c' c'') : Kept c c'' := by
  refine ⟨h'.system.trans h.system, ?_⟩
  have hfirst := h.events
  have hevents := h'.events
  generalize c.events = events, c'.events = events', c''.events = events'' at hfirst hevents ⊢
  induction hfirst generalizing events'' with
  | nil =>
    cases hevents
    exact .nil
  | cons hhead _ ih =>
    cases hevents with
    | cons hhead' htail => exact .cons (hhead.trans hhead') (ih _ htail)

/-- A run from a state that kept its start is honest when its calls are. -/
theorem honestRun_of_kept {start : Conversation} (hkept : Kept start c) (calls : List Compaction) :
    HonestRun start c calls ↔ MeetsRun c calls := by
  induction calls generalizing c with
  | nil => exact iff_of_true hkept trivial
  | cons call calls ih =>
    have hrest := ih (hkept.trans (kept_run call c))
    rw [HonestRun, MeetsRun, hrest, honestCall_iff]
    exact and_iff_right hkept

/-- A sequence of compactions is honest exactly when each of its calls meets its condition. -/
theorem honestRun_iff (c : Conversation) (calls : List Compaction) : HonestRun c c calls ↔ MeetsRun c calls :=
  honestRun_of_kept (.refl c) calls

/-- A truncation cuts the result that the model has just asked for. -/
theorem unanswered_result_cut :
    let c : Conversation := ⟨"", [.assistantToolCalls [], .toolResult ⟨"", "aaaa", false, "", false, "", ""⟩]⟩
    ¬HonestRun c c [.truncate 2] := by
  intro c hrun
  have hmeets := (honestCall_iff (.truncate 2) c).mp hrun.2.1
  exact absurd (hmeets (1, ⟨"", "aaaa", false, "", false, "", ""⟩) (by decide +kernel)) (by decide +kernel)

end PrReviewer.Model
