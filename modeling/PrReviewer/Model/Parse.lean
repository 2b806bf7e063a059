import PrReviewer.Enforcement.CheckAnswers
import PrReviewer.Js.JsonStringify
import PrReviewer.Model.Decode
import PrReviewer.Model.Findings

/-!
# The verdict of a response

`parseVerdictResponse`: what a model response says, or the failure that the caller is told. The scan for known
secrets and the masking of a message are parameters (`ResponseText`). The triage answer and the keys passed
through are left out.

The parsed verdict is well formed (`ParsedReviewVerdict.WellFormed`) unless an entry that it keeps names a
member which an alias table inherits, or an infinite line (`IsRegular`).
-/

open Js List

namespace PrReviewer.Model

open Enforcement (VerdictValue isAttributable)

/-- What the parser takes from elsewhere. -/
structure ResponseText where
  toLowerCase : String → String
  containsKnownSecret : String → Bool
  maskDiagnostic : String → String

/-! ## Failures -/

inductive VerdictParseErrorKind where
  | endpointError
  | notObject
  | missingVerdictKey
  | missingReviewMarkdownKey
  | invalidVerdict
  | emptyMarkdown
  | flattenedMarkdown
  | knownSecretInContent
  | emptyCompletion
  deriving DecidableEq, Repr

structure VerdictParseFailure where
  kind : VerdictParseErrorKind
  message : String
  truncated : Bool := false
  deriving DecidableEq, Repr

def TRUNC_SUFFIX : String :=
  " (model output appears truncated at the token limit; increase ai_max_tokens)"

/-- `pyStr`. -/
def pyStr : Value → String
  | .undefined | .null => "None"
  | .string s => s
  | .bool b => if b then "True" else "False"
  | .number x => numberToString x
  | .count n => toString n
  | value => Json.jsonStringify value

def pyRepr : Option String → String
  | none => "None"
  | some value => "'" ++ value ++ "'"

def pyTypeName : Value → String
  | .undefined | .null => "NoneType"
  | .array _ => "list"
  | .string _ => "str"
  | .bool _ => "bool"
  | .number x => if x.isInteger then "int" else "float"
  | .count _ => "int"
  | .object _ => "dict"

/-! ## The content of a response -/

/-- What `extractContent` returns. -/
inductive Content where
  | whole (text : String)
  | parts (texts : List String)
  | other

/-- The text of one part of the content of a choice. -/
def choicePart (item : Value) : Option String :=
  match item with
  | .string text => some text
  | .object _ =>
    match item.get "type" with
    | .undefined | .null => (item.get "text").string?
    | .string kind => if kind == "text" then (item.get "text").string? else none
    | _ => none
  | _ => none

/-- The text of one part of a content of typed blocks. -/
def blockPart (item : Value) : Option String :=
  if isRecord item ∧ (item.get "type").string? = some "text" then (item.get "text").string? else none

def extractContent (response : Value) : Content :=
  match response.get "choices" with
  | .array (first :: _) =>
    let message := if isRecord first && isRecord (first.get "message") then first.get "message" else .object []
    match message.get "content" with
    | .string text => .whole text
    | .array items => .parts (items.filterMap choicePart)
    | _ => .other
  | _ =>
    match response.get "content" with
    | .array items =>
      let parts := items.filterMap blockPart
      if parts = [] then .other else .parts parts
    | .string text => .whole text
    | _ => .other

/-- The content as one text. -/
def Content.joined : Content → String
  | .whole text => text
  | .parts texts => String.join texts
  | .other => ""

/-- `lines.map((line) => line.replace(/\r$/, ""))`. -/
def withoutReturn (line : List Char) : List Char :=
  if line.getLast? = some '\r' then line.dropLast else line

def stripMarkdownCodeBlock (text : String) : String :=
  let stripped := trim text
  if (List.replicate 3 backtick).isPrefixOf stripped.toList then
    let lines := ((linesOf stripped.toList).map withoutReturn).tail
    let lines := if lines.getLast?.any (trimChars · == List.replicate 3 backtick) then lines.dropLast else lines
    String.ofList (trimChars (['\n'].intercalate lines))
  else stripped

def finishReasonOf (response : Value) : Option String :=
  let reason :=
    match response.get "choices" with
    | .array (first :: _) => if isRecord first then (first.get "finish_reason").string? else none
    | _ => none
  reason.or (response.get "stop_reason").string?

def completionTokens (response : Value) : Option Number :=
  let usage := response.get "usage"
  let count (key : String) : Option Number := (usage.get key).toNumber?.filter Number.isInteger
  if isRecord usage then (count "completion_tokens").or (count "output_tokens") else none

/-- JavaScript's truth of a value. -/
def isTruthy : Value → Bool
  | .undefined | .null => false
  | .bool b => b
  | .number x => !(x == 0 || x.isNaN)
  | .count n => n != 0
  | .string s => s != ""
  | .array _ | .object _ => true

/-- `surfaceStreamError`. -/
def surfaceStreamError (response : Value) : Except VerdictParseFailure Unit :=
  let err := response.get "error"
  if !isTruthy err then .ok ()
  else
    let msg :=
      match err with
      | .object _ =>
        match (err.get "message").string? with
        | some message => if message != "" then message else Json.jsonStringify err
        | none => Json.jsonStringify err
      | .string text => text
      | err => Json.jsonStringify err
    .error ⟨.endpointError, "Model endpoint returned an error: " ++ msg, false⟩

/-! ## The verdict -/

def approveVerdicts : List String := ["approve", "approved", "approval", "lgtm"]

def requestChangesVerdicts : List String :=
  ["request_changes", "request_change", "requestchanges", "changes_requested", "change_requested",
    "needs_changes", "needs_change", "reject", "rejected"]

/-- `trim().toLowerCase().split(/\s+/).join("_").replaceAll("-", "_")`. -/
def verdictWord (toLowerCase : String → String) (value : String) : String :=
  String.ofList ((collapse isSpace (toLowerCase (trim value)).toList).map fun c =>
    if c = ' ' ∨ c = '-' then '_' else c)

def normalizeVerdict (toLowerCase : String → String) (value : Value) : Option VerdictValue :=
  value.string?.bind fun text =>
    let collapsed := verdictWord toLowerCase text
    if approveVerdicts.contains collapsed then some .approve
    else if requestChangesVerdicts.contains collapsed then some .requestChanges
    else none

/-- The number of matches of `/## /g`. -/
def headingMarkers : List Char → Nat
  | '#' :: '#' :: ' ' :: cs => headingMarkers cs + 1
  | _ :: cs => headingMarkers cs
  | [] => 0

def truncationReasons : List String := ["length", "max_tokens", "max_output_tokens"]

structure ParsedReviewVerdict where
  verdict : VerdictValue
  reviewMarkdown : String
  findings : List NormalizedFinding
  requirementCoverage : Value
  requiredCheckDispositions : Option (List NormalizedRequiredCheckDisposition)
  requiredCheckDispositionsEmitted : Bool
  threadDispositions : Option (List NormalizedThreadDisposition)
  threadDispositionsEmitted : Bool
  humanReviewDispositions : Option (List NormalizedHumanReviewDisposition)
  humanReviewDispositionsEmitted : Bool
  smartReviewRequested : Bool
  smartReviewReason : Option String

def maxSmartReviewReasonChars : Nat := 400

/-- `normalizeSmartReviewRequest`. -/
def normalizeSmartReviewRequest (parsed : Value) : Bool × Option String :=
  let requested := (parsed.get "smart_review_requested").bool? == some true
  let reason :=
    if requested then
      (parsed.get "smart_review_reason").string?.bind fun raw =>
        orNull (sliceTo maxSmartReviewReasonChars (reasonLine raw))
    else none
  (requested, reason)

/-- The structured fields of an answer. -/
def parsedVerdict (toLowerCase : String → String) (parsed : Value) (verdict : VerdictValue)
    (markdown : String) : ParsedReviewVerdict :=
  let dispositions := normalizeRequiredCheckDispositions toLowerCase
    (parsed.get "required_check_dispositions") (hasKey "required_check_dispositions" parsed)
  let threadDispositions := normalizeThreadDispositions toLowerCase
    (parsed.get "thread_dispositions") (hasKey "thread_dispositions" parsed)
  let humanReviewDispositions := normalizeHumanReviewDispositions toLowerCase
    (parsed.get "human_review_dispositions") (hasKey "human_review_dispositions" parsed)
  let smartRequest := normalizeSmartReviewRequest parsed
  { verdict
    reviewMarkdown := markdown
    findings := normalizeFindings toLowerCase (parsed.get "findings")
    requirementCoverage := parsed.get "requirement_coverage"
    requiredCheckDispositions := dispositions.2
    requiredCheckDispositionsEmitted := dispositions.1
    threadDispositions := threadDispositions.2
    threadDispositionsEmitted := threadDispositions.1
    humanReviewDispositions := humanReviewDispositions.2
    humanReviewDispositionsEmitted := humanReviewDispositions.1
    smartReviewRequested := smartRequest.1
    smartReviewReason := smartRequest.2 }

/-! ## Parsing -/

/-- The trimmed content of a response. -/
def contentText (response : Value) : String := trim (extractContent response).joined

/-- The decoded answer of a response, taken out of a list of one; `null` where nothing is decoded. -/
def answerOf (response : Value) : Value :=
  match tryDecodeJson (stripMarkdownCodeBlock (contentText response)).toList with
  | some (.array [item]) => if isRecord item then item else .array [item]
  | some parsed => parsed
  | none => .null

/-- `trunc`. -/
def truncSuffix (response : Value) : String :=
  if (finishReasonOf response).any truncationReasons.contains then TRUNC_SUFFIX else ""

/-- The checks of a decoded answer. -/
def checkedVerdict (toLowerCase : String → String) (parsed : Value) (trunc : String) :
    Except VerdictParseFailure ParsedReviewVerdict :=
  let truncated := trunc != ""
  if !isRecord parsed then
    .error ⟨.notObject, "Expected JSON object but got " ++ pyTypeName parsed ++ trunc, truncated⟩
  else if !hasKey "verdict" parsed then
    .error ⟨.missingVerdictKey, "Parsed JSON missing required key 'verdict'" ++ trunc, truncated⟩
  else if !hasKey "review_markdown" parsed then
    .error ⟨.missingReviewMarkdownKey, "Parsed JSON missing required key 'review_markdown'" ++ trunc, truncated⟩
  else
    match normalizeVerdict toLowerCase (parsed.get "verdict") with
    | none =>
      .error ⟨.invalidVerdict, "Expected verdict to be 'approve' or 'request_changes', got '" ++
        pyStr (parsed.get "verdict") ++ "'", false⟩
    | some verdict =>
      match (parsed.get "review_markdown").string?.filter fun markdown => trim markdown != "" with
      | none =>
        .error ⟨.emptyMarkdown, "Parsed JSON has empty or missing 'review_markdown'" ++ trunc, truncated⟩
      | some markdown =>
        if !markdown.toList.contains '\n' && 2 ≤ headingMarkers markdown.toList then
          .error ⟨.flattenedMarkdown,
            "Parsed JSON 'review_markdown' appears flattened: contains multiple '## ' heading markers but no newlines. " ++
              "This is a known artefact of grammar-constrained decoding under " ++
              "ai_response_format: json_schema (e.g., Fireworks). Retry " ++
              "with ai_response_format: json_object or increase " ++ "ai_max_tokens." ++ trunc, truncated⟩
        else .ok (parsedVerdict toLowerCase parsed verdict markdown)

def parseVerdictResponseUnmasked (toLowerCase : String → String) (response : Value) :
    Except VerdictParseFailure ParsedReviewVerdict :=
  if !isRecord response then
    .error ⟨.notObject, "Expected JSON object but got " ++ pyTypeName response, false⟩
  else
    match surfaceStreamError response with
    | .error failure => .error failure
    | .ok () =>
      if contentText response == "" && (completionTokens response).any (· == 0) then
        .error ⟨.emptyCompletion, "Model returned an empty completion (0 completion tokens, finish_reason=" ++
          pyRepr (finishReasonOf response) ++ "). Nothing to parse.", false⟩
      else checkedVerdict toLowerCase (answerOf response) (truncSuffix response)

/-- `contentHasKnownSecret`. -/
def contentHasKnownSecret (text : ResponseText) (response : Value) : Bool :=
  isRecord response && text.containsKnownSecret (extractContent response).joined

def parseVerdictResponse (text : ResponseText) (response : Value) :
    Except VerdictParseFailure ParsedReviewVerdict :=
  let parsed : Except VerdictParseFailure ParsedReviewVerdict :=
    match parseVerdictResponseUnmasked text.toLowerCase response with
    | .error failure => .error failure
    | .ok parsed =>
      if contentHasKnownSecret text response then
        .error ⟨.knownSecretInContent,
          "Model completion content embeds a configured credential; the response is refused rather than published.",
          false⟩
      else .ok parsed
  parsed.mapError fun failure => { failure with message := text.maskDiagnostic failure.message }

/-- What the parser accepts is the answer of the response, with its structured fields read. -/
theorem parseVerdictResponse_ok {text : ResponseText} {response : Value} {parsed : ParsedReviewVerdict}
    (h : parseVerdictResponse text response = .ok parsed) :
    ∃ verdict markdown,
      parsed = parsedVerdict text.toLowerCase (answerOf response) verdict markdown := by
  have hunmasked : parseVerdictResponseUnmasked text.toLowerCase response = .ok parsed := by
    unfold parseVerdictResponse at h
    generalize parseVerdictResponseUnmasked text.toLowerCase response = out at h ⊢
    cases out with
    | error failure => cases h
    | ok accepted =>
      dsimp only at h
      split at h <;> cases h
      rfl
  have hchecked : checkedVerdict text.toLowerCase (answerOf response) (truncSuffix response) = .ok parsed := by
    unfold parseVerdictResponseUnmasked at hunmasked
    split at hunmasked
    · cases hunmasked
    · split at hunmasked
      · cases hunmasked
      · split at hunmasked
        · cases hunmasked
        · exact hunmasked
  unfold checkedVerdict at hchecked
  split at hchecked
  · cases hchecked
  split at hchecked
  · cases hchecked
  split at hchecked
  · cases hchecked
  split at hchecked
  · cases hchecked
  split at hchecked
  · cases hchecked
  split at hchecked
  · cases hchecked
  · cases hchecked
    exact ⟨_, _, rfl⟩

/-! ## Well-formed verdicts -/

/-- The status is a word of its table or the marker of an unknown one. -/
def Stated.IsDeclared {α : Type} (status : Stated α) : Prop := ∀ name, status ≠ .inherited name

/-- A parsed verdict as its type declares it. -/
structure ParsedReviewVerdict.WellFormed (toLowerCase : String → String) (answer : Value)
    (parsed : ParsedReviewVerdict) : Prop where
  count : parsed.findings.length ≤ maxFindings
  findings : ∀ finding ∈ parsed.findings, finding.IsDeclared
  sorted : parsed.findings.Pairwise fun f g => f.rank ≤ g.rank
  /-- The findings are the first usable entries of the answer, within one severity in its order. -/
  perm : parsed.findings.Perm (readFindings toLowerCase (answer.get "findings"))
  stable : ∀ severity, parsed.findings.filter (·.severity = severity) =
    (readFindings toLowerCase (answer.get "findings")).filter (·.severity = severity)
  checks : ∀ ds, parsed.requiredCheckDispositions = some ds → ∀ d ∈ ds, d.status.IsDeclared
  threads : ∀ ds, parsed.threadDispositions = some ds → ∀ d ∈ ds, d.disposition.IsDeclared
  humanReviews : ∀ ds, parsed.humanReviewDispositions = some ds → ∀ d ∈ ds, d.disposition.IsDeclared

/-- The entries of a field that are kept: the first `cap` of those that are `usable`. -/
def keptEntries (usable : Value → Bool) (cap : Nat) (field : Value) : List Value :=
  ((elementsOf field).filter usable).take cap

/-- The stated word is a name that the table inherits. -/
def isInheritedWord {α : Type} (table : List (String × α)) (word : String) : Bool :=
  (table.lookup word).isNone && objectPrototype.contains word

/-- No kept entry of the answer states an inherited name, and no kept finding an infinite line. -/
structure IsRegular (toLowerCase : String → String) (answer : Value) : Prop where
  findings : ∀ item ∈ keptEntries (fun item => (messageOf item).isSome) maxFindings (answer.get "findings"),
    hasInheritedSeverity toLowerCase item = false ∧ hasInfiniteLine item = false
  checks : ∀ item ∈ keptEntries isAttributable maxRequiredChecks (answer.get "required_check_dispositions"),
    isInheritedWord requiredCheckStatusAliases (wordOf toLowerCase (item.get "status")) = false
  threads : ∀ item ∈ keptEntries (fun item => (entryId "thread_id" maxThreadIdChars item).isSome)
      maxThreadDispositions (answer.get "thread_dispositions"),
    isInheritedWord threadDispositionAliases (wordOf toLowerCase (item.get "disposition")) = false

section

variable {α β : Type}

theorem take_filterMap (f : α → Option β) (l : List α) (n : Nat) :
    (l.filterMap f).take n = ((l.filter fun a => (f a).isSome).take n).filterMap f := by
  induction l generalizing n with
  | nil => simp
  | cons a l ih =>
    cases ha : f a with
    | none => rw [filterMap_cons_none ha, filter_cons_of_neg (by simp [ha]), ih]
    | some b =>
      rw [filterMap_cons_some ha, filter_cons_of_pos (by simp [ha])]
      cases n with
      | zero => rfl
      | succ n => rw [take_succ_cons, take_succ_cons, filterMap_cons_some ha, ih]

/-- What holds of the entries read from a field, said of its kept entries. -/
theorem forall_read_iff {one : Value → Option β} {usable : Value → Bool} {cap : Nat} {field : Value}
    {p : β → Prop} {q : Value → Prop} (husable : ∀ item, (one item).isSome = usable item)
    (hone : ∀ item b, one item = some b → (p b ↔ q item)) :
    (∀ b ∈ ((elementsOf field).filterMap one).take cap, p b) ↔
      ∀ item ∈ keptEntries usable cap field, q item := by
  rw [take_filterMap, funext husable]
  change (∀ b ∈ (keptEntries usable cap field).filterMap one, p b) ↔ _
  constructor
  · intro hread item hitem
    have hkept := (mem_filter.mp (mem_of_mem_take hitem)).2
    rw [← husable] at hkept
    obtain ⟨b, hb⟩ := Option.isSome_iff_exists.mp hkept
    exact (hone item b hb).mp (hread b (mem_filterMap.mpr ⟨item, hitem, hb⟩))
  · intro hkept b hb
    obtain ⟨item, hitem, hread⟩ := mem_filterMap.mp hb
    exact (hone item b hread).mpr (hkept item hitem)

end

theorem normalizeEntries_iff {β : Type} (one : Value → Option β) {usable : Value → Bool} (cap : Nat)
    (answer : Value) (key : String) {p : β → Prop} {q : Value → Prop}
    (husable : ∀ item, (one item).isSome = usable item)
    (hone : ∀ item b, one item = some b → (p b ↔ q item)) :
    (∀ ds, (normalizeEntries one cap (answer.get key) (hasKey key answer)).2 = some ds → ∀ d ∈ ds, p d) ↔
      ∀ item ∈ keptEntries usable cap (answer.get key), q item := by
  rw [← forall_read_iff husable hone]
  unfold normalizeEntries
  cases hkey : hasKey key answer with
  | false =>
    have hundefined : answer.get key = .undefined := by
      cases answer with
      | object fields =>
        have hnone : fields.lookup key = none := by
          rw [List.lookup_eq_none_iff]
          intro field hfield
          have hne := any_eq_false.mp hkey field hfield
          rw [bne_iff_ne]
          exact fun hsame => hne (decide_eq_true hsame.symm)
        rw [Value.get, hnone]
        rfl
      | _ => rfl
    rw [hundefined]
    exact iff_of_true (fun ds hds => by cases hds) fun b hb => by cases mem_of_mem_take hb
  | true =>
    cases answer.get key with
    | array items =>
      exact ⟨fun h => h _ rfl, fun h ds hds => by cases hds; exact h⟩
    | _ => exact iff_of_true (fun ds hds => by cases hds) fun b hb => by cases mem_of_mem_take hb

/-! ## When the verdict is well formed -/

theorem ofMember_declared_iff {α : Type} {table : List (String × α)} {word : String} :
    (Stated.ofMember (memberOf table word)).IsDeclared ↔ isInheritedWord table word = false := by
  have hinherited := memberOf_inherited_iff table word
  unfold isInheritedWord
  rw [Bool.eq_false_iff, ne_eq, Bool.and_eq_true, ← hinherited]
  rcases memberOf table word with _ | known | name
  · exact iff_of_true nofun nofun
  · exact iff_of_true nofun nofun
  · exact iff_of_false (fun h => h name rfl) fun h => h ⟨name, rfl⟩

theorem dispositionFor_declared_iff (check : String) (word : String) (rationale : Option String) :
    (dispositionFor check (memberOf requiredCheckStatusAliases word) rationale).status.IsDeclared ↔
      isInheritedWord requiredCheckStatusAliases word = false := by
  rw [← ofMember_declared_iff]
  unfold dispositionFor
  rcases memberOf requiredCheckStatusAliases word with _ | known | name
  · exact Iff.rfl
  · dsimp only
    split
    · exact iff_of_true nofun nofun
    · exact Iff.rfl
  · rfl

/-- An accepted verdict is well formed exactly when the entries that it keeps are regular. -/
theorem wellFormed_iff {text : ResponseText} {response : Value} {parsed : ParsedReviewVerdict}
    (h : parseVerdictResponse text response = .ok parsed) :
    parsed.WellFormed text.toLowerCase (answerOf response) ↔
      IsRegular text.toLowerCase (answerOf response) := by
  obtain ⟨verdict, markdown, rfl⟩ := parseVerdictResponse_ok h
  generalize text.toLowerCase = toLowerCase at *
  generalize answerOf response = answer at *
  have hfindings : (∀ finding ∈ normalizeFindings toLowerCase (answer.get "findings"), finding.IsDeclared) ↔
      ∀ item ∈ keptEntries (fun item => (messageOf item).isSome) maxFindings (answer.get "findings"),
        hasInheritedSeverity toLowerCase item = false ∧ hasInfiniteLine item = false := by
    rw [← forall_read_iff (fun item => Option.isSome_map) fun item finding => isDeclared_findingOf]
    exact forall_congr' fun finding => imp_congr_left (perm_normalizeFindings toLowerCase _).mem_iff
  have hchecks := normalizeEntries_iff (requiredCheckDisposition toLowerCase) maxRequiredChecks answer
    "required_check_dispositions" (p := fun d => d.status.IsDeclared)
    (Enforcement.isSome_requiredCheckDisposition toLowerCase) fun item d hd => by
      obtain ⟨raw, -, -, -, -, rfl⟩ := (Enforcement.requiredCheckDisposition_eq_some toLowerCase).mp hd
      exact dispositionFor_declared_iff _ _ _
  have hthreads := normalizeEntries_iff (threadDisposition toLowerCase) maxThreadDispositions answer
    "thread_dispositions" (p := fun d => d.disposition.IsDeclared) (fun item => Option.isSome_map)
    fun item d hd => by
      obtain ⟨threadId, -, rfl⟩ := Option.map_eq_some_iff.mp hd
      exact ofMember_declared_iff
  have hhumanReviews := normalizeEntries_iff (humanReviewDisposition toLowerCase) maxHumanReviewDispositions
    answer "human_review_dispositions" (p := fun d => d.disposition.IsDeclared) (q := fun _ => True)
    (fun item => Option.isSome_map) fun item d hd => by
      obtain ⟨reviewId, -, rfl⟩ := Option.map_eq_some_iff.mp hd
      dsimp only
      split <;> exact iff_of_true nofun trivial
  constructor
  · intro hwell
    exact ⟨hfindings.mp hwell.findings, hchecks.mp hwell.checks, hthreads.mp hwell.threads⟩
  · intro hregular
    exact
      { count := by
          have hperm := (perm_normalizeFindings toLowerCase (answer.get "findings")).length_eq
          exact hperm.trans_le (length_take_le _ _)
        findings := hfindings.mpr hregular.findings
        sorted := sorted_normalizeFindings toLowerCase _
        perm := perm_normalizeFindings toLowerCase _
        stable := filter_sorted toLowerCase _
        checks := hchecks.mpr hregular.checks
        threads := hthreads.mpr hregular.threads
        humanReviews := hhumanReviews.mpr fun _ _ => trivial }

/-- A response whose content is one text. -/
def responseOf (content : String) : Value :=
  .object [("choices", .array [.object [("message", .object [("content", .string content)])]])]

/-- Nothing is changed and nothing is secret. -/
def ResponseText.plain : ResponseText := ⟨id, fun _ => false, id⟩

/-- An answer that says no more than it must. -/
def plainResponse : Value := responseOf "\x7b\x22verdict\x22:\x22lgtm\x22,\x22review_markdown\x22:\x22x\x22\x7d"

section

variable {content : String} {chars : List Char}

theorem contentText_responseOf (content : String) : contentText (responseOf content) = trim content := by
  simp [contentText, extractContent, responseOf, Value.get, isRecord, Content.joined]

/-- An answer that stands for itself is the record that its characters decode to. -/
theorem answerOf_responseOf (p : Value → Bool) (hchars : content.toList = chars)
    (htrimmed : ((chars.dropWhile isSpace).reverse.dropWhile isSpace).reverse = chars)
    (hopen : (List.replicate 3 backtick).isPrefixOf chars = false)
    (hread : (tryDecodeJson chars).any (fun value => isRecord value && p value) = true) :
    p (answerOf (responseOf content)) = true := by
  have htrim : trim content = content := by
    rw [← String.toList_inj, trim, String.toList_ofList, hchars, htrimmed]
  have hstrip : stripMarkdownCodeBlock content = content := by
    simp only [stripMarkdownCodeBlock, htrim, hchars, hopen, Bool.false_eq_true, if_false]
  unfold answerOf
  rw [contentText_responseOf, htrim, hstrip, hchars]
  cases hdecoded : tryDecodeJson chars with
  | none => simp [hdecoded] at hread
  | some decoded =>
    simp only [hdecoded, Option.any_some, Bool.and_eq_true] at hread
    cases decoded <;> first | exact hread.2 | simp [isRecord] at hread

theorem parseVerdictResponse_responseOf (content : String) :
    parseVerdictResponse .plain (responseOf content) = checkedVerdict id (answerOf (responseOf content)) "" := by
  have hstream : surfaceStreamError (responseOf content) = .ok () := by
    simp [surfaceStreamError, responseOf, Value.get, isTruthy, lookup_cons]
  have htokens : completionTokens (responseOf content) = none := by
    simp [completionTokens, responseOf, Value.get, isRecord, lookup_cons]
  have htrunc : truncSuffix (responseOf content) = "" := by
    simp [truncSuffix, finishReasonOf, responseOf, Value.get, isRecord, Value.string?, lookup_cons]
  unfold parseVerdictResponse parseVerdictResponseUnmasked
  rw [show ResponseText.plain.toLowerCase = id from rfl, hstream, htokens, htrunc,
    show isRecord (responseOf content) = true from rfl]
  simp only [Option.any_none, Bool.and_false, Bool.not_true, Bool.false_eq_true, if_false]
  cases checkedVerdict id (answerOf (responseOf content)) "" <;>
    simp [ResponseText.plain, contentHasKnownSecret, Except.mapError]

end

instance isOk_plain : Fact ((checkedVerdict id (answerOf plainResponse) "").isOk = true) :=
  ⟨answerOf_responseOf (fun value => (checkedVerdict id value "").isOk)
    String.toList_ofList (by decide) (by decide) (by decide +kernel)⟩

theorem wellFormed_plain : ∃ parsed, parseVerdictResponse .plain plainResponse = .ok parsed ∧
    (parsed.WellFormed id (answerOf plainResponse) ↔ IsRegular id (answerOf plainResponse)) := by
  have hok := isOk_plain.out
  cases hparsed : parseVerdictResponse .plain plainResponse with
  | error failure =>
    rw [plainResponse, ← parseVerdictResponse_responseOf, ← plainResponse, hparsed] at hok
    cases hok
  | ok parsed => exact ⟨parsed, rfl, wellFormed_iff hparsed⟩

/-- An answer with a finding whose severity is the name of an inherited member. -/
def inheritedResponse : Value :=
  responseOf ("\x7b\x22verdict\x22:\x22lgtm\x22,\x22review_markdown\x22:\x22x\x22" ++
    ",\x22findings\x22:[\x7b\x22message\x22:\x22m\x22,\x22severity\x22:\x22constructor\x22\x7d]\x7d")

instance severities_inherited : Fact ((checkedVerdict id (answerOf inheritedResponse) "").toOption.map
    (fun parsed => parsed.findings.map (·.severity)) = some [.inherited "constructor"]) :=
  ⟨of_decide_eq_true (answerOf_responseOf (fun value => decide ((checkedVerdict id value "").toOption.map
      (fun parsed => parsed.findings.map (·.severity)) = some [.inherited "constructor"]))
    (String.toList_append.trans (congrArg₂ _ String.toList_ofList String.toList_ofList))
    (by decide +kernel) (by decide +kernel) (by decide +kernel))⟩

theorem inherited_severity : ∃ parsed, parseVerdictResponse .plain inheritedResponse = .ok parsed ∧
    ¬∀ finding ∈ parsed.findings, ∃ severity, finding.severity = .own severity := by
  have hread := severities_inherited.out
  rw [show parseVerdictResponse .plain inheritedResponse = _ from parseVerdictResponse_responseOf _]
  change ∃ parsed, checkedVerdict id (answerOf inheritedResponse) "" = _ ∧ _
  cases hparsed : checkedVerdict id (answerOf inheritedResponse) "" with
  | error failure =>
    rw [hparsed] at hread
    cases hread
  | ok parsed =>
    refine ⟨parsed, rfl, fun hall => ?_⟩
    rw [hparsed, Except.toOption, Option.map_some, Option.some_inj] at hread
    obtain ⟨finding, hfinding, hinherited⟩ := mem_map.mp
      (hread ▸ mem_singleton_self _ : (.inherited "constructor") ∈ parsed.findings.map (·.severity))
    obtain ⟨severity, hown⟩ := hall finding hfinding
    rw [hown] at hinherited
    cases hinherited

end PrReviewer.Model
