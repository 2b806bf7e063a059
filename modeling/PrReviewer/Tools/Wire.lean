import PrReviewer.Tools.Turns

/-!
# The requests of the tool loop on the wire

A provider refuses a request with an open tool call, and the Anthropic format also one with two neighbours of one
role.

- `outline` forgets the texts of results, which is all that compaction changes. What matters on the wire is a
  property of the outline.
- `transcript` is the outline of a run: the opening message, then one `Exchange` for each round, with the results
  of its calls behind them and the note of the next turn behind the results.
- `onWire_run` is for runs in which no call has an empty id (`addToolResult` records nothing for one) and, in the
  Anthropic format, no text stands beside calls and no row is active at the start: a text is an assistant message of
  its own, and so is the first note a user message.
-/

open Js List

namespace PrReviewer.Tools

open Model

/-! ## Well-formed requests -/

/-- The ids of the results before the next turn of the assistant. -/
def answersOfTurn : List ConversationEvent → List String
  | [] => []
  | .toolResult e :: es => e.callId :: answersOfTurn es
  | .assistantText _ :: _ => []
  | .assistantToolCalls _ :: _ => []
  | .user _ :: es => answersOfTurn es
  | .systemNote _ :: es => answersOfTurn es
  | .turnNote _ :: es => answersOfTurn es

/-- Behind each turn with calls stand their results, one for each call and in the order of the calls. -/
def Paired : List ConversationEvent → Prop
  | [] => True
  | .assistantToolCalls calls :: es => answersOfTurn es = calls.map (·.id) ∧ Paired es
  | .toolResult _ :: es => Paired es
  | .assistantText _ :: es => Paired es
  | .user _ :: es => Paired es
  | .systemNote _ :: es => Paired es
  | .turnNote _ :: es => Paired es

/-- A request that a provider takes. -/
structure OnWire (o : DriveToolLoopOptions) (c : Conversation) : Prop where
  noneOpen : c.openToolCallIds = []
  paired : Paired c.events
  startsWithUser : o.apiFormat = "anthropic" →
    ((c.requestMessages o.apiFormat).map (·.role)).head? = some "user"
  alternates : o.apiFormat = "anthropic" →
    ((c.requestMessages o.apiFormat).map (·.role)).IsChain (· ≠ ·)

/-! ## Outlines -/

/-- A result of which only the call is told. -/
def answer (id : String) : ConversationEvent := .toolResult ⟨id, "", false, "", false, "", ""⟩

/-- An event without the text of a result. -/
def outlineOf : ConversationEvent → ConversationEvent
  | .toolResult r => answer r.callId
  | e => e

def Conversation.outline (c : Conversation) : List ConversationEvent := c.events.map outlineOf

theorem outline_of_rewrites {c c' : Conversation} (h : Conversation.Rewrites c c') :
    Conversation.outline c' = Conversation.outline c := by
  obtain ⟨f, hf, rfl⟩ := h
  unfold Conversation.outline Conversation.rewriteResults
  dsimp only
  rw [mapIdx_eq_zipIdx_map, map_map]
  conv => rhs; rw [← zipIdx_map_fst 0 c.events, map_map]
  congr 1
  funext ⟨e, i⟩
  cases e with
  | toolResult r => simp [outlineOf, hf]
  | _ => rfl

theorem outline_add (c : Conversation) (e : ConversationEvent) :
    Conversation.outline (c.add e) = Conversation.outline c ++ [outlineOf e] := by
  simp [Conversation.outline, Conversation.add]

theorem outline_addResults (c : Conversation) (rs : List ToolResultEvent) :
    Conversation.outline (Conversation.addResults c rs) =
      Conversation.outline c ++ (rs.map (·.callId)).map answer := by
  simp [Conversation.outline, Conversation.addResults, outlineOf]

theorem answersOfTurn_outline (es : List ConversationEvent) :
    answersOfTurn (es.map outlineOf) = answersOfTurn es := by
  induction es with
  | nil => rfl
  | cons e es ih => cases e <;> simp [answersOfTurn, outlineOf, answer, ih]

theorem paired_outline (es : List ConversationEvent) : Paired (es.map outlineOf) ↔ Paired es := by
  induction es with
  | nil => exact Iff.rfl
  | cons e es ih => cases e <;> simp [Paired, outlineOf, answer, ih, answersOfTurn_outline]

theorem openToolCallIds_eq (c : Conversation) :
    c.openToolCallIds = (⟨"", Conversation.outline c⟩ : Conversation).openToolCallIds := by
  have hcalled : (⟨"", Conversation.outline c⟩ : Conversation).calledIds = c.calledIds := by
    unfold Conversation.calledIds Conversation.outline
    rw [flatMap_map]
    congr 1
    funext e
    cases e <;> rfl
  have hanswered : (⟨"", Conversation.outline c⟩ : Conversation).answeredIds = c.answeredIds := by
    unfold Conversation.answeredIds Conversation.outline
    rw [filterMap_map]
    congr 1
    funext e
    cases e <;> rfl
  rw [Conversation.openToolCallIds, Conversation.openToolCallIds, hcalled, hanswered]

/-! ## Roles -/

/-- The roles of the messages behind tool results, if any are pending. -/
def anthropicRoles : Bool → List ConversationEvent → List String
  | pending, [] => if pending then ["user"] else []
  | pending, .user _ :: es => if pending then anthropicRoles true es else "user" :: anthropicRoles false es
  | pending, .assistantText _ :: es => (if pending then ["user"] else []) ++ "assistant" :: anthropicRoles false es
  | pending, .assistantToolCalls calls :: es =>
    (if pending then ["user"] else []) ++ ((if calls = [] then [] else ["assistant"]) ++ anthropicRoles false es)
  | _, .toolResult _ :: es => anthropicRoles true es
  | pending, .turnNote _ :: es => if pending then anthropicRoles true es else "user" :: anthropicRoles false es
  | pending, .systemNote _ :: es => anthropicRoles pending es

theorem map_role_flushToolResults (results : List Value) :
    (flushToolResults results).map (·.role) = if results ≠ [] then ["user"] else [] := by
  unfold flushToolResults
  split <;> simp_all [blockMessage]

theorem map_role_anthropicMessages (es : List ConversationEvent) (results : List Value) :
    (anthropicMessages true results es).map (·.role) = anthropicRoles (decide (results ≠ [])) es := by
  induction es generalizing results with
  | nil => simp [anthropicMessages, anthropicRoles, map_role_flushToolResults]
  | cons e es ih =>
    cases e with
    | user content =>
      by_cases h : results = [] <;> simp [anthropicMessages, anthropicRoles, h, ih]
    | assistantText content =>
      simp [anthropicMessages, anthropicRoles, map_role_flushToolResults, ih, blockMessage]
    | assistantToolCalls calls =>
      by_cases h : calls = [] <;>
        simp [anthropicMessages, anthropicRoles, map_role_flushToolResults, ih, blockMessage, h]
    | toolResult r => simp [anthropicMessages, anthropicRoles, ih]
    | systemNote content => simp [anthropicMessages, anthropicRoles, ih]
    | turnNote content =>
      by_cases h : results = [] <;> simp [anthropicMessages, anthropicRoles, h, ih]

theorem anthropicRoles_outline (es : List ConversationEvent) (pending : Bool) :
    anthropicRoles pending (es.map outlineOf) = anthropicRoles pending es := by
  induction es generalizing pending with
  | nil => rfl
  | cons e es ih => cases e <;> simp [anthropicRoles, outlineOf, answer, ih]

theorem roles_eq {o : DriveToolLoopOptions} (h : o.apiFormat = "anthropic") (c : Conversation) :
    (c.requestMessages o.apiFormat).map (·.role) = anthropicRoles false (Conversation.outline c) := by
  unfold Conversation.requestMessages Conversation.renderAnthropicMessages
  rw [if_pos h, map_role_anthropicMessages, Conversation.outline, anthropicRoles_outline]
  rfl

/-! ## Transcripts -/

/-- A round: the text beside the calls, the calls, and the note of the next turn. -/
structure Exchange where
  text : Option String
  calls : List ToolCallRecord
  note : Option String

def Exchange.events (x : Exchange) : List ConversationEvent :=
  x.text.toList.map .assistantText ++ .assistantToolCalls x.calls :: ((x.calls.map (·.id)).map answer ++
    x.note.toList.map .turnNote)

def roundsOf (xs : List Exchange) : List ConversationEvent := xs.flatMap Exchange.events

def transcript (content : String) (opening : Option String) (xs : List Exchange) : List ConversationEvent :=
  .user content :: (opening.toList.map .turnNote ++ roundsOf xs)

theorem roundsOf_append (xs ys : List Exchange) : roundsOf (xs ++ ys) = roundsOf xs ++ roundsOf ys :=
  flatMap_append

theorem roundsOf_cons (x : Exchange) (xs : List Exchange) : roundsOf (x :: xs) = x.events ++ roundsOf xs :=
  flatMap_cons

theorem answersOfTurn_answers (ids : List String) (es : List ConversationEvent) :
    answersOfTurn (ids.map answer ++ es) = ids ++ answersOfTurn es := by
  induction ids with
  | nil => rfl
  | cons id ids ih => simp [answersOfTurn, answer, ih]

theorem answersOfTurn_note (note : Option String) (es : List ConversationEvent) :
    answersOfTurn (note.toList.map .turnNote ++ es) = answersOfTurn es := by
  cases note <;> rfl

theorem answersOfTurn_roundsOf (xs : List Exchange) : answersOfTurn (roundsOf xs) = [] := by
  cases xs with
  | nil => rfl
  | cons x xs =>
    rw [roundsOf_cons, Exchange.events]
    cases x.text <;> rfl

theorem paired_answers (ids : List String) (es : List ConversationEvent) :
    Paired (ids.map answer ++ es) ↔ Paired es := by
  induction ids with
  | nil => exact Iff.rfl
  | cons id ids ih => simp [Paired, answer, ih]

theorem paired_note (note : Option String) (es : List ConversationEvent) :
    Paired (note.toList.map .turnNote ++ es) ↔ Paired es := by
  cases note <;> simp [Paired]

theorem paired_roundsOf (xs : List Exchange) : Paired (roundsOf xs) := by
  induction xs with
  | nil => trivial
  | cons x xs ih =>
    have hcalls : Paired (.assistantToolCalls x.calls :: ((x.calls.map (·.id)).map answer ++
        (x.note.toList.map .turnNote ++ roundsOf xs))) := by
      refine ⟨?_, ?_⟩
      · rw [answersOfTurn_answers, answersOfTurn_note, answersOfTurn_roundsOf, append_nil]
      · rw [paired_answers, paired_note]
        exact ih
    rw [roundsOf_cons, Exchange.events]
    cases x.text <;> simpa [Paired] using hcalls

theorem paired_transcript (content : String) (opening : Option String) (xs : List Exchange) :
    Paired (transcript content opening xs) := by
  rw [transcript, Paired, paired_note]
  exact paired_roundsOf xs

theorem flatMap_callIdsOf_answers (ids : List String) : (ids.map answer).flatMap Conversation.callIdsOf = [] := by
  simp [answer, Conversation.callIdsOf]

theorem filterMap_answeredId?_answers (ids : List String) :
    (ids.map answer).filterMap Conversation.answeredId? = ids := by
  induction ids with
  | nil => rfl
  | cons id ids ih => simpa [answer, Conversation.answeredId?] using ih

/-- The calls of the rounds are those that are answered. -/
theorem ids_roundsOf (xs : List Exchange) :
    (roundsOf xs).flatMap Conversation.callIdsOf = xs.flatMap (fun x => x.calls.map (·.id)) ∧
      (roundsOf xs).filterMap Conversation.answeredId? = xs.flatMap fun x => x.calls.map (·.id) := by
  induction xs with
  | nil => exact ⟨rfl, rfl⟩
  | cons x xs ih =>
    rw [roundsOf_cons, flatMap_append, filterMap_append, ih.1, ih.2, Exchange.events]
    simp only [flatMap_append, filterMap_append, flatMap_cons, filterMap_cons,
      flatMap_callIdsOf_answers, filterMap_answeredId?_answers]
    cases x.text <;> cases x.note <;>
      simp [Conversation.callIdsOf, Conversation.answeredId?, filterMap_cons]

theorem openToolCallIds_transcript (content : String) (opening : Option String) (xs : List Exchange) :
    (⟨"", transcript content opening xs⟩ : Conversation).openToolCallIds = [] := by
  obtain ⟨hcalled, hanswered⟩ := ids_roundsOf xs
  have hcalled' : (⟨"", transcript content opening xs⟩ : Conversation).calledIds =
      xs.flatMap fun x => x.calls.map (·.id) := by
    rw [← hcalled]
    cases opening <;> rfl
  have hanswered' : (⟨"", transcript content opening xs⟩ : Conversation).answeredIds =
      xs.flatMap fun x => x.calls.map (·.id) := by
    rw [← hanswered]
    cases opening <;> rfl
  rw [Conversation.openToolCallIds, hcalled', hanswered']
  simp

theorem anthropicRoles_answers {ids : List String} (h : ids ≠ []) (pending : Bool) (es : List ConversationEvent) :
    anthropicRoles pending (ids.map answer ++ es) = anthropicRoles true es := by
  induction ids generalizing pending with
  | nil => exact absurd rfl h
  | cons id ids ih =>
    cases ids with
    | nil => rfl
    | cons id' ids => exact ih (cons_ne_nil _ _) true

/-- A round without a text is a message of the assistant and one of the user. -/
theorem anthropicRoles_roundsOf {xs : List Exchange} (h : ∀ x ∈ xs, x.text = none ∧ x.calls ≠ []) :
    anthropicRoles false (roundsOf xs) = xs.flatMap (fun _ => ["assistant", "user"]) ∧
      anthropicRoles true (roundsOf xs) = "user" :: xs.flatMap fun _ => ["assistant", "user"] := by
  induction xs with
  | nil => exact ⟨rfl, rfl⟩
  | cons x xs ih =>
    obtain ⟨hfalse, htrue⟩ := ih fun y hy => h y (mem_cons_of_mem _ hy)
    obtain ⟨htext, hcalls⟩ := h x mem_cons_self
    have hnote : anthropicRoles true (x.note.toList.map .turnNote ++ roundsOf xs) =
        "user" :: xs.flatMap fun _ => ["assistant", "user"] := by
      cases x.note <;> simpa [anthropicRoles] using htrue
    have hids : x.calls.map (·.id) ≠ [] := by simpa using hcalls
    rw [roundsOf_cons, Exchange.events, htext]
    simp only [Option.toList_none, map_nil, nil_append, cons_append, append_assoc, anthropicRoles,
      if_neg hcalls, anthropicRoles_answers hids, hnote, flatMap_cons]
    simp

theorem isChain_alternating (xs : List Exchange) :
    ("user" :: xs.flatMap fun _ => ["assistant", "user"]).IsChain (· ≠ ·) := by
  induction xs with
  | nil => simp
  | cons x xs ih => simpa using ih

/-- The outline of a run in which requests are well formed. -/
structure Transcribed (o : DriveToolLoopOptions) (c : Conversation) (content : String) (opening : Option String)
    (xs : List Exchange) : Prop where
  outline : Conversation.outline c = transcript content opening xs
  calls : ∀ x ∈ xs, x.calls ≠ []
  plain : o.apiFormat = "anthropic" → opening = none ∧ ∀ x ∈ xs, x.text = none

theorem Transcribed.onWire {o : DriveToolLoopOptions} {c : Conversation} {content : String} {opening : Option String}
    {xs : List Exchange} (h : Transcribed o c content opening xs) : OnWire o c := by
  have hroles (hformat : o.apiFormat = "anthropic") : (c.requestMessages o.apiFormat).map (·.role) =
      "user" :: xs.flatMap fun _ => ["assistant", "user"] := by
    obtain ⟨rfl, htexts⟩ := h.plain hformat
    rw [roles_eq hformat, h.outline, transcript]
    have := (anthropicRoles_roundsOf fun x hx => ⟨htexts x hx, h.calls x hx⟩).1
    simp [anthropicRoles, this]
  refine ⟨?_, ?_, fun hformat => ?_, fun hformat => ?_⟩
  · rw [openToolCallIds_eq, h.outline, openToolCallIds_transcript]
  · rw [← paired_outline, show c.events.map outlineOf = Conversation.outline c from rfl, h.outline]
    exact paired_transcript content opening xs
  · rw [hroles hformat]
    rfl
  · rw [hroles hformat]
    exact isChain_alternating xs

/-! ## Runs -/

/-- An answer without empty call ids and, in the Anthropic format, without a text beside calls. -/
def Speaks (o : DriveToolLoopOptions) (t : Turn) : Prop :=
  ∀ response, t.response = .ok response →
    (∀ call ∈ (extractToolCalls response o.apiFormat).1, call.id ≠ "") ∧
      (o.apiFormat = "anthropic" → (extractToolCalls response o.apiFormat).1 ≠ [] →
        (extractToolCalls response o.apiFormat).2 = "")

/-- A text that is left out when it is empty. -/
def nonEmpty? (s : String) : Option String := if s = "" then none else some s

theorem outline_addTurnNote (c : Conversation) (note : String) : Conversation.outline (c.addTurnNote note) =
    Conversation.outline c ++ (nonEmpty? note).toList.map .turnNote := by
  unfold Conversation.addTurnNote nonEmpty?
  split
  · simp
  · rw [outline_add]
    rfl

theorem outline_issued (c : Conversation) (text : String) {calls : List ToolCallRecord} (h : calls ≠ []) :
    Conversation.outline ((if text ≠ "" then c.addAssistantText text else c).addAssistantToolCalls calls) =
      Conversation.outline c ++ (nonEmpty? text).toList.map .assistantText ++ [.assistantToolCalls calls] := by
  unfold Conversation.addAssistantToolCalls nonEmpty?
  rw [if_neg h, outline_add]
  by_cases htext : text = ""
  · simp [htext, outlineOf]
  · simp [htext, outlineOf, Conversation.addAssistantText, outline_add]

variable {o : DriveToolLoopOptions} {c₀ : Conversation} {content : String} {s a : LoopState}

/-- The state at the start of a turn. -/
structure Proper (o : DriveToolLoopOptions) (c₀ : Conversation) (content : String) (s : LoopState) : Prop where
  requests : ∀ r ∈ s.requests, OnWire o r
  running : s.stopReason = none →
    (s.rounds = 0 ∧ s.decisions = (LoopState.start o c₀).decisions ∧
        Transcribed o s.conversation content none []) ∨
      (0 < s.rounds ∧ ∃ opening xs x, x.note = none ∧ Transcribed o s.conversation content opening (xs ++ [x]))

/-- The note in front of a request goes to the opening message or behind the last results. -/
theorem transcribed_asked (hquiet : o.apiFormat = "anthropic" → 0 < o.reserve →
      (LoopState.start o c₀).decisions.hasActiveRow o = false) (h : Proper o c₀ content s)
    (hrunning : s.stopReason = none) (ha : Asked o s a) :
    ∃ opening xs, Transcribed o a.conversation content opening xs := by
  obtain ⟨c, hrewrites, hconversation⟩ := ha.conversation
  have houtline : Conversation.outline a.conversation =
      Conversation.outline s.conversation ++ (nonEmpty? (turnNote o s)).toList.map .turnNote := by
    rw [hconversation, outline_addTurnNote, outline_of_rewrites hrewrites]
  rcases h.running hrunning with ⟨hrounds, hdecisions, htranscribed⟩ | ⟨-, opening, xs, x, hnote, htranscribed⟩
  · refine ⟨nonEmpty? (turnNote o s), [], ?_, fun x hx => absurd hx not_mem_nil, fun hformat => ⟨?_, ?_⟩⟩
    · rw [houtline, htranscribed.outline]
      simp [transcript, roundsOf]
    · have hempty : turnNote o s = "" := by
        unfold turnNote
        rw [if_pos hrounds]
        refine if_neg fun hactive => ?_
        simp only [Bool.and_eq_true, decide_eq_true_eq, hdecisions] at hactive
        exact absurd hactive.2 (by simp [hquiet hformat hactive.1])
      rw [hempty]
      rfl
    · exact fun x hx => absurd hx not_mem_nil
  · refine ⟨opening, xs ++ [{ x with note := nonEmpty? (turnNote o s) }], ?_, fun y hy => ?_, fun hformat => ?_⟩
    · rw [houtline, htranscribed.outline, transcript, transcript, roundsOf_append, roundsOf_append]
      simp [roundsOf, Exchange.events, hnote]
    · rcases mem_append.mp hy with hy | hy
      · exact htranscribed.calls y (mem_append_left _ hy)
      · rw [mem_singleton.mp hy]
        exact htranscribed.calls x (mem_append_right _ (mem_singleton_self x))
    · obtain ⟨hopening, htexts⟩ := htranscribed.plain hformat
      refine ⟨hopening, fun y hy => ?_⟩
      rcases mem_append.mp hy with hy | hy
      · exact htexts y (mem_append_left _ hy)
      · rw [mem_singleton.mp hy]
        exact htexts x (mem_append_right _ (mem_singleton_self x))

theorem proper_loopTurn (hquiet : o.apiFormat = "anthropic" → 0 < o.reserve →
      (LoopState.start o c₀).decisions.hasActiveRow o = false) (h : Proper o c₀ content s) (t : Turn)
    (ht : s.stopReason = none → Speaks o t) : Proper o c₀ content (loopTurn o s t) := by
  obtain ⟨stopReason, heq, hstop⟩ | ⟨hrunning, -, a, ha, heq⟩ := loopTurn_cases o s t
  · rw [heq]
    refine ⟨h.requests, fun hnone => ?_⟩
    cases show stopReason = none from hnone
    cases hstop
  · obtain ⟨opening, xs, htranscribed⟩ := transcribed_asked hquiet h hrunning ha
    have hrequests : ∀ r ∈ a.requests, OnWire o r := by
      rw [ha.log_projections.1]
      exact forall_mem_append.mpr ⟨h.requests, by simpa using htranscribed.onWire⟩
    rw [heq]
    obtain hquieted | ⟨response, calls, text, hresponse, hcalls, hne, hran⟩ := respond_cases o t a
    · refine ⟨?_, fun hnone => absurd hquieted.stopped (by simp [hnone])⟩
      rw [hquieted.log_projections.1]
      exact hrequests
    · refine ⟨?_, fun _ => .inr ⟨?_, opening, xs, ⟨nonEmpty? text, calls, none⟩, rfl, ?_, ?_, ?_⟩⟩
      · rw [hran.log_projections.1]
        exact hrequests
      · rw [hran.rounds]
        exact Nat.succ_pos _
      · -- Every call has an id, so every call is answered.
        obtain ⟨rs, hrs, hconversation⟩ := hran.conversation
        have hids : (calls.map (·.id)).filter (· ≠ "") = calls.map (·.id) := by
          refine filter_eq_self.mpr fun id hid => ?_
          obtain ⟨call, hcall, rfl⟩ := mem_map.mp hid
          have := ((ht hrunning) response hresponse).1
          rw [hcalls] at this
          simpa using this call hcall
        rw [hconversation, outline_addResults, show rs.map (·.callId) = calls.map (·.id) from hrs.trans hids]
        change Conversation.outline (Conversation.addAssistantToolCalls _ calls) ++ _ = _
        rw [outline_issued _ _ hne, htranscribed.outline, transcript, transcript, roundsOf_append]
        simp [roundsOf, Exchange.events]
      · refine forall_mem_append.mpr ⟨htranscribed.calls, ?_⟩
        simpa using hne
      · intro hformat
        obtain ⟨hopening, htexts⟩ := htranscribed.plain hformat
        refine ⟨hopening, forall_mem_append.mpr ⟨htexts, ?_⟩⟩
        have htext := ((ht hrunning) response hresponse).2 hformat
        rw [hcalls] at htext
        have hempty : text = "" := htext hne
        simp [nonEmpty?, hempty]

/-- In a run on one opening message, every request is well formed if no answer has an empty call id and, in the
Anthropic format, none has a text beside calls and no row is active at the start. -/
theorem onWire_run (o : DriveToolLoopOptions) (system content : String) (turns : List Turn)
    (hquiet : o.apiFormat = "anthropic" → 0 < o.reserve →
      (LoopState.start o ⟨system, [.user content]⟩).decisions.hasActiveRow o = false)
    (hspeaks : Machine.Along (loopTurn o) (fun s t => s.stopReason = none → Speaks o t)
      (.start o ⟨system, [.user content]⟩) turns) :
    ∀ r ∈ (driveToolLoop o ⟨system, [.user content]⟩ turns).requests, OnWire o r := by
  have hstart : Proper o ⟨system, [.user content]⟩ content (.start o ⟨system, [.user content]⟩) :=
    ⟨fun _ h => absurd h not_mem_nil,
      fun _ => .inl ⟨rfl, rfl, rfl, fun _ h => absurd h not_mem_nil, fun _ => ⟨rfl, fun _ h => absurd h not_mem_nil⟩⟩⟩
  exact (hspeaks.invariant (fun _ t h ht => proper_loopTurn hquiet h t ht) hstart).requests

/-! ## A text beside calls -/

/-- The Anthropic format, with nothing reserved. -/
def anthropicOptions : DriveToolLoopOptions where
  apiFormat := "anthropic"
  budgets := {
    maxToolCalls := 4, maxRounds := 4, wallClockSec := 100, maxConversationTokens := 100000
    truncatedResultBytes := 1000, summarizeKeepNewest := 2 }

/-- The model asks for a listing, with these blocks in front. -/
def listTurn (blocks : List Value) : Turn where
  response := .ok (.object [("content", .array (blocks ++ [.object [("type", .string "tool_use"),
    ("id", .string "toolu_1"), ("name", .string "list_tree"), ("input", .object [])]]))])

theorem onWire_list :
    Machine.Along (loopTurn anthropicOptions) (fun s t => s.stopReason = none → Speaks anthropicOptions t)
        (.start anthropicOptions ⟨"", [.user "Review the change."]⟩) [listTurn [], listTurn []] ∧
      ∀ r ∈ (driveToolLoop anthropicOptions ⟨"", [.user "Review the change."]⟩ [listTurn [], listTurn []]).requests,
        OnWire anthropicOptions r := by
  have hspeaks : Machine.Along (loopTurn anthropicOptions) (fun s t => s.stopReason = none → Speaks anthropicOptions t)
      (.start anthropicOptions ⟨"", [.user "Review the change."]⟩) [listTurn [], listTurn []] := by
    refine Machine.along_of_mem fun s t ht _ response hresponse => ?_
    obtain rfl : t = listTurn [] := by simpa using ht
    cases hresponse
    exact ⟨by decide +kernel, fun _ _ => by decide +kernel⟩
  exact ⟨hspeaks, onWire_run anthropicOptions "" "Review the change." _ (fun _ h => absurd h (by decide)) hspeaks⟩

/-- A text beside a call makes two neighbouring messages of the assistant. -/
theorem text_beside_calls :
    ¬∀ (o : DriveToolLoopOptions) (system content : String) (turns : List Turn), content ≠ "" →
      ∀ r ∈ (driveToolLoop o ⟨system, [.user content]⟩ turns).requests, OnWire o r := by
  intro h
  have hroles : ∃ r ∈ (driveToolLoop anthropicOptions ⟨"", [.user "Review the change."]⟩
      [listTurn [.object [("type", .string "text"), ("text", .string "I list the files.")]], listTurn []]).requests,
        (r.requestMessages "anthropic").map (·.role) = ["user", "assistant", "assistant", "user"] := by
    decide +kernel
  obtain ⟨r, hr, hroles⟩ := hroles
  have honWire := h anthropicOptions "" "Review the change." _ (by decide) r hr
  have halternates := honWire.alternates rfl
  rw [show anthropicOptions.apiFormat = "anthropic" from rfl, hroles] at halternates
  exact absurd halternates (by decide)

end PrReviewer.Tools
