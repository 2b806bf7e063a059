import PrReviewer.Js.JsonCompact
import PrReviewer.Model.PyJson

/-!
# The metadata marker

`src/precheck/metadata.ts` writes metadata as compact JSON into an HTML comment (`buildMetadataMarker`) and reads it
back (`parseMetadata`), trying one comment closer after the other, since a closer may stand inside a JSON string.

`parseMetadata_buildMetadataMarker`: the reader gives back what the builder serialised, whatever is around the marker.
A text cut at an inner closer is an object that is not closed, so it is no JSON (`Json.parse_of_cut`).
-/

open Js Js.Json List

namespace PrReviewer.Precheck

/-! ## Reading -/

/-- `-->`. -/
def closer : List Char := ['-', '-', '>']

/-- The text behind a match of `MARKER_PREFIX_PATTERN` at the start. What follows a `\s*` of the pattern is no space,
so there is nothing to backtrack. -/
def afterMarkerPrefix (cs : List Char) : Option (List Char) :=
  (cs.dropPrefix? "<!--".toList).bind fun cs =>
  ((cs.dropWhile isSpace).dropPrefix? "ai-pr-reviewer:".toList).bind fun cs =>
  let cs := cs.dropWhile isSpace
  if cs.head? = some '{' then some cs else none

/-- The text behind the first match. -/
def findMarker : List Char → Option (List Char)
  | [] => none
  | c :: cs => (afterMarkerPrefix (c :: cs)).or (findMarker cs)

/-- The text before the first closer, and the text behind it. -/
def cutCloser : List Char → Option (List Char × List Char)
  | [] => none
  | c :: cs =>
    if closer.isPrefixOf (c :: cs) then some ([], cs.drop 2)
    else (cutCloser cs).map fun p => (c :: p.1, p.2)

theorem length_cutCloser {cs : List Char} {p : List Char × List Char} (h : cutCloser cs = some p) :
    p.2.length < cs.length := by
  induction cs generalizing p with
  | nil => cases h
  | cons c cs ih =>
    rw [cutCloser] at h
    split at h
    · obtain rfl := Option.some.inj h
      rw [length_drop, length_cons]
      omega
    · obtain ⟨p', hcut, rfl⟩ := Option.map_eq_some_iff.mp h
      rw [length_cons]
      exact (ih hcut).trans (Nat.lt_succ_self _)

/-- The first text up to a closer in `cs` that `read` takes; `taken` is the text before `cs`. -/
def tryClosers {α : Type} (read : List Char → Option α) (taken cs : List Char) : Option α :=
  match _h : cutCloser cs with
  | none => none
  | some p => (read (taken ++ p.1)).or (tryClosers read (taken ++ p.1 ++ closer) p.2)
termination_by cs.length
decreasing_by exact length_cutCloser _h

/-- What a candidate text gives: nothing where `JSON.parse` throws, else the result of the reader. -/
def readCandidate (candidate : List Char) : Option (Option (List (String × Value))) :=
  match parse (trim (String.ofList candidate)) with
  | some (.object data) => some (some data)
  | some _ => some none
  | none => none

def parseMetadata (body : String) : Option (List (String × Value)) :=
  ((findMarker body.toList).bind (tryClosers readCandidate [])).join

/-! ## Writing -/

/-- A field that is absent, or `undefined` or `null`, is `none`. -/
structure MetadataOptions where
  version : Option Number := none
  headSha : Option String := none
  baseSha : Option String := none
  reviewResult : Option String := none
  requiredChecks : Option String := none
  reviewRoute : Option String := none
  escalationReason : Option (List String) := none
  cacheHitRatio : Option Number := none
  coverage : Option String := none
  coverageStopReason : Option String := none
  incompleteReason : Option String := none
  ciState : Option String := none
  toolBudget : Option Number := none
  toolBudgetSource : Option String := none
  toolCalls : Option Number := none
  toolRounds : Option Number := none
  maxRounds : Option Number := none
  contextBudget : Option Number := none
  contextPeak : Option Number := none
  toolStopReason : Option String := none
  actionVersion : Option String := none
  degradedGateBypass : Option Bool := none
  confidenceStatus : Option String := none
  confidenceScore : Option Number := none
  dependencyCoverage : Option String := none
  confidenceCause : Option String := none
  confidenceLatencyMs : Option Number := none
  confidencePromptTokens : Option Number := none
  confidenceCompletionTokens : Option Number := none
  confidenceTotalTokens : Option Number := none
  derivedObligationState : Option String := none

/-- A text is left out when it is one of `omitted`. -/
def textField (key : String) (omitted : List String) : Option String → List (String × Value)
  | none => []
  | some s => if s ∈ omitted then [] else [(key, .string s)]

def numberField (key : String) : Option Number → List (String × Value)
  | none => []
  | some x => [(key, .number x)]

/-- A number is left out unless it is an integer from 0 on. -/
def countField (key : String) : Option Number → List (String × Value)
  | none => []
  | some x => if Number.isInteger x && decide (0 ≤ x) then [(key, .number x)] else []

def textsField (key : String) : Option (List String) → List (String × Value)
  | none => []
  | some ss => [(key, .array (ss.map .string))]

/-- A flag is left out unless it is true. -/
def trueField (key : String) (flag : Option Bool) : List (String × Value) :=
  if flag = some true then [(key, .bool true)] else []

/-- The fields of a marker, in the order in which the builder inserts them. -/
def metadataFields (options : MetadataOptions) : List (List (String × Value)) :=
  [[("version", .number (options.version.getD 1))],
    [("head_sha", .string (options.headSha.getD ""))],
    [("base_sha", .string (options.baseSha.getD ""))],
    [("review_result", .string (options.reviewResult.getD "clean"))],
    textField "required_checks" ["", "none"] options.requiredChecks,
    textField "review_route" ["legacy"] options.reviewRoute,
    textsField "escalation_reason" options.escalationReason,
    numberField "cache_hit_ratio" options.cacheHitRatio,
    textField "coverage" [""] options.coverage,
    textField "coverage_stop_reason" [""] options.coverageStopReason,
    textField "incomplete_reason" ["", "none"] options.incompleteReason,
    textField "ci_state" [""] options.ciState,
    numberField "tool_budget" options.toolBudget,
    textField "tool_budget_source" [""] options.toolBudgetSource,
    numberField "tool_calls" options.toolCalls,
    numberField "tool_rounds" options.toolRounds,
    numberField "max_rounds" options.maxRounds,
    numberField "context_budget" options.contextBudget,
    numberField "context_peak" options.contextPeak,
    textField "action_version" [""] options.actionVersion,
    trueField "degraded_gate_bypass" options.degradedGateBypass,
    textField "tool_stop_reason" [""] options.toolStopReason,
    textField "confidence_status" [""] options.confidenceStatus,
    numberField "confidence_score" options.confidenceScore,
    textField "dependency_coverage" [""] options.dependencyCoverage,
    textField "confidence_cause" [""] options.confidenceCause,
    countField "confidence_latency_ms" options.confidenceLatencyMs,
    countField "confidence_prompt_tokens" options.confidencePromptTokens,
    countField "confidence_completion_tokens" options.confidenceCompletionTokens,
    countField "confidence_total_tokens" options.confidenceTotalTokens,
    textField "derived_obligation_state" [""] options.derivedObligationState]

/-- The data of a marker. -/
def metadata (options : MetadataOptions) : List (String × Value) := (metadataFields options).flatten

/-- `jsonCompact(value)`. -/
def jsonCompact (value : Value) : List Char := Model.encode ⟨",", ":", "null", false, false⟩ value

def buildMetadataMarker (options : MetadataOptions) : String :=
  "<!-- ai-pr-reviewer:" ++ String.ofList (jsonCompact (.object (metadata options))) ++ " -->"

/-! ## The text of the data -/

theorem unitEscape_eq : ∀ u < 32, Model.unitEscape u = ['\\', 'u', '0', '0', hexDigit (u / 16), hexDigit (u % 16)] := by
  decide

/-- Without escapes for other characters, the writer escapes as `JSON.stringify` does. -/
theorem pyJsonEscapeChar_eq (c : Char) : Model.pyJsonEscapeChar false c = escapeChar c := by
  have hcode : ∀ d : Char, c.toNat = d.toNat ↔ c = d := fun d => Char.toNat_inj
  have hline := hcode '\n'
  have hreturn := hcode '\r'
  have htab := hcode '\t'
  have hline' : '\n'.toNat = 0xA := rfl
  have hreturn' : '\r'.toNat = 0xD := rfl
  have htab' : '\t'.toNat = 0x9 := rfl
  rw [hline'] at hline
  rw [hreturn'] at hreturn
  rw [htab'] at htab
  unfold Model.pyJsonEscapeChar escapeChar
  simp only [← hline, ← hreturn, ← htab, Bool.false_and, Bool.false_eq_true, if_false]
  by_cases hlow : c.toNat < 0x20
  · rw [if_pos hlow, if_pos hlow, unitEscape_eq _ hlow]
    grind
  · grind

theorem pyJsonEscapeString_eq (s : String) : Model.pyJsonEscapeString s false = quote s := by
  rw [Model.pyJsonEscapeString, quote]
  congr 2
  exact flatMap_congr fun c _ => pyJsonEscapeChar_eq c

/-- A value of the data is read back. -/
def ReadBack : Value → Value → Prop
  | .number x, v => IsNumber x v
  | v, w => w = v

/-- The same key, and its value read back. -/
def SameField (f g : String × Value) : Prop := f.1 = g.1 ∧ ReadBack f.2 g.2

/-- What the data of a marker holds. -/
inductive Flat : Value → Prop
  | text (s : String) : Flat (.string s)
  | texts (ss : List String) : Flat (.array (ss.map .string))
  | bool (b : Bool) : Flat (.bool b)
  | number {x : Number} (h : x.isFinite = true) : Flat (.number x)

theorem join_comma (texts : List (List Char)) : ",".toList.intercalate texts = join ',' texts := rfl

variable {v : Value} {data fields : List (String × Value)} {options : MetadataOptions}
  {l : List Char}

theorem readAs_flat (h : Flat v) : ∃ w, ReadAs (jsonCompact v) w ∧ ReadBack v w := by
  cases h with
  | text s =>
    refine ⟨.string s, ?_, rfl⟩
    rw [jsonCompact, Model.encode, pyJsonEscapeString_eq]
    exact readAs_quote s
  | texts ss =>
    refine ⟨_, ?_, rfl⟩
    have htexts : ∀ l : Model.Layout, l.ensureAscii = false →
        Model.encodeElements l (ss.map .string) = ss.map quote := by
      intro l hl
      induction ss with
      | nil => rfl
      | cons s ss ih => rw [map_cons, Model.encodeElements, ih, Model.encode, hl, pyJsonEscapeString_eq, map_cons]
    rw [jsonCompact, Model.encode, htexts _ rfl, Model.enclose, join_comma]
    refine ReadAs.array ?_
    rw [forall₂_map_left_iff, forall₂_map_right_iff]
    exact forall₂_same.mpr fun s _ => readAs_quote s
  | bool b => exact ⟨.bool b, readAs_bool b, rfl⟩
  | number h =>
    obtain ⟨w, hread, his⟩ := readAs_number h
    exact ⟨w, hread, his⟩

theorem exists_readAs (h : ∀ f ∈ data, Flat f.2) :
    ∃ fields, List.Forall₂ (fun f g : String × Value => SameField f g ∧ ReadAs (jsonCompact f.2) g.2) data fields := by
  induction data with
  | nil => exact ⟨[], .nil⟩
  | cons f data ih =>
    obtain ⟨fields, hfields⟩ := ih fun g hg => h g (mem_cons_of_mem _ hg)
    obtain ⟨w, hread, hback⟩ := readAs_flat (h f mem_cons_self)
    exact ⟨(f.1, w) :: fields, .cons ⟨⟨rfl, hback⟩, hread⟩ hfields⟩

theorem names_eq (h : List.Forall₂ SameField data fields) :
    data.map Prod.fst = fields.map Prod.fst := by
  induction h with
  | nil => rfl
  | cons hf _ ih => rw [map_cons, map_cons, hf.1, ih]

theorem jsonCompact_object (data : List (String × Value)) : jsonCompact (.object data) =
    '{' :: (join ',' ((data.map fun f => (f.1, jsonCompact f.2)).map fun p => memberText p.1 p.2) ++ ['}']) := by
  rw [jsonCompact, Model.encode, Model.encodeMembers_eq_map, Model.enclose, join_comma]
  simp only [if_false, Bool.false_eq_true, map_map]
  congr 4
  funext f
  simp [memberText, pyJsonEscapeString_eq, jsonCompact]

/-- The numbers of the options. -/
def MetadataOptions.numbers (options : MetadataOptions) : List Number :=
  [options.version, options.cacheHitRatio, options.toolBudget, options.toolCalls, options.toolRounds, options.maxRounds,
    options.contextBudget, options.contextPeak, options.confidenceScore, options.confidenceLatencyMs,
    options.confidencePromptTokens, options.confidenceCompletionTokens, options.confidenceTotalTokens].flatMap
    Option.toList

def metadataKeys : List String :=
  ["version", "head_sha", "base_sha", "review_result", "required_checks", "review_route", "escalation_reason",
    "cache_hit_ratio", "coverage", "coverage_stop_reason", "incomplete_reason", "ci_state", "tool_budget",
    "tool_budget_source", "tool_calls", "tool_rounds", "max_rounds", "context_budget", "context_peak",
    "action_version", "degraded_gate_bypass", "tool_stop_reason", "confidence_status", "confidence_score",
    "dependency_coverage", "confidence_cause", "confidence_latency_ms", "confidence_prompt_tokens",
    "confidence_completion_tokens", "confidence_total_tokens", "derived_obligation_state"]

/-- A piece of the data: at most one field, of the given key. -/
def Piece (piece : List (String × Value)) (key : String) : Prop :=
  (piece.map Prod.fst).Sublist [key] ∧ ∀ f ∈ piece, Flat f.2

theorem piece_field (h : Flat v) (key : String) : Piece [(key, v)] key :=
  ⟨List.Sublist.refl _, by simpa using h⟩

theorem piece_nil (key : String) : Piece [] key := ⟨nil_sublist _, forall_mem_nil _⟩

theorem piece_textField (key : String) (omitted : List String) (v : Option String) :
    Piece (textField key omitted v) key := by
  rcases v with _ | s
  · exact piece_nil key
  · rw [textField]
    split
    · exact piece_nil key
    · exact piece_field (.text s) key

theorem piece_textsField (key : String) (v : Option (List String)) : Piece (textsField key v) key := by
  rcases v with _ | ss
  · exact piece_nil key
  · exact piece_field (.texts ss) key

theorem piece_trueField (key : String) (flag : Option Bool) : Piece (trueField key flag) key := by
  rw [trueField]
  split
  · exact piece_field (.bool true) key
  · exact piece_nil key

theorem piece_numberField (key : String) {v : Option Number} (h : ∀ x ∈ v, x.isFinite = true) :
    Piece (numberField key v) key := by
  rcases v with _ | x
  · exact piece_nil key
  · exact piece_field (.number (h x rfl)) key

theorem piece_countField (key : String) {v : Option Number} (h : ∀ x ∈ v, x.isFinite = true) :
    Piece (countField key v) key := by
  rcases v with _ | x
  · exact piece_nil key
  · rw [countField]
    split
    · exact piece_field (.number (h x rfl)) key
    · exact piece_nil key

theorem pieces (h : ∀ x ∈ options.numbers, x.isFinite = true) :
    List.Forall₂ Piece (metadataFields options) metadataKeys := by
  simp only [MetadataOptions.numbers, flatMap_cons, flatMap_nil, append_nil, forall_mem_append,
    Option.mem_toList] at h
  obtain ⟨hversion, hratio, hbudget, hcalls, hrounds, hmax, hcontext, hpeak, hscore, hlatency, hprompt, hcompletion,
    htotal⟩ := h
  have hversion' : (options.version.getD 1).isFinite = true := by
    cases hv : options.version with
    | none => decide
    | some x => exact hversion x hv
  refine .cons (piece_field (.number hversion') _) (.cons (piece_field (.text _) _) (.cons (piece_field (.text _) _)
    (.cons (piece_field (.text _) _) ?_)))
  simp only [forall₂_cons, forall₂_nil_right_iff, piece_textField, piece_textsField, piece_trueField,
    piece_numberField _ hratio, piece_numberField _ hbudget, piece_numberField _ hcalls, piece_numberField _ hrounds,
    piece_numberField _ hmax, piece_numberField _ hcontext, piece_numberField _ hpeak, piece_numberField _ hscore,
    piece_countField _ hlatency, piece_countField _ hprompt, piece_countField _ hcompletion,
    piece_countField _ htotal, and_true]

theorem sublist_of_pieces {ps : List (List (String × Value))} {keys : List String} (h : List.Forall₂ Piece ps keys) :
    (ps.flatten.map Prod.fst).Sublist keys ∧ ∀ f ∈ ps.flatten, Flat f.2 := by
  induction h with
  | nil => exact ⟨List.Sublist.refl _, forall_mem_nil _⟩
  | @cons piece key ps keys hpiece _ ih =>
    rw [flatten_cons, map_append, forall_mem_append]
    exact ⟨hpiece.1.append ih.1, hpiece.2, ih.2⟩

/-- The text of the data is read as the data. -/
theorem readAs_data (h : ∀ f ∈ data, Flat f.2) (hkeys : (data.map Prod.fst).Nodup) :
    ∃ fields, ReadAs (jsonCompact (.object data)) (.object fields) ∧ List.Forall₂ SameField data fields := by
  obtain ⟨fields, hfields⟩ := exists_readAs h
  have hsame : List.Forall₂ SameField data fields := hfields.imp fun _ _ hf => hf.1
  refine ⟨fields, ?_, hsame⟩
  rw [jsonCompact_object]
  refine ReadAs.object ?_ (names_eq hsame ▸ hkeys)
  rw [forall₂_map_left_iff]
  exact hfields.imp fun _ _ hf => ⟨hf.1.1, hf.2⟩

theorem readAs_metadata (h : ∀ x ∈ options.numbers, x.isFinite = true) :
    ∃ fields, ReadAs (jsonCompact (.object (metadata options))) (.object fields) ∧
      List.Forall₂ SameField (metadata options) fields := by
  obtain ⟨hkeys, hflat⟩ := sublist_of_pieces (pieces h)
  have hnodup : metadataKeys.Nodup := by decide
  exact readAs_data hflat (hnodup.sublist hkeys)

/-! ## The closers -/

section Closers

variable {w cs rest : List Char} {d : Char}

/-- A text without `d` that a text begins with is before the first `d` of it. -/
theorem prefix_of_append (hd : d ∉ w) (h : w <+: cs ++ d :: rest) : w <+: cs := by
  induction cs generalizing w with
  | nil =>
    rcases w with _ | ⟨c, w⟩
    · exact nil_prefix
    · obtain rfl : c = d := (cons_prefix_cons.mp h).1
      simp at hd
  | cons c cs ih =>
    rcases w with _ | ⟨c', w⟩
    · exact nil_prefix
    · obtain ⟨rfl, htail⟩ := cons_prefix_cons.mp h
      exact cons_prefix_cons.mpr ⟨rfl, ih (fun hw => hd (mem_cons_of_mem _ hw)) htail⟩

theorem cutCloser_append (cs after : List Char) :
    (∃ before behind, cs = before ++ closer ++ behind ∧
      cutCloser (cs ++ ' ' :: (closer ++ after)) = some (before, behind ++ ' ' :: (closer ++ after))) ∨
    cutCloser (cs ++ ' ' :: (closer ++ after)) = some (cs ++ [' '], after) := by
  induction cs with
  | nil => exact .inr rfl
  | cons c cs ih =>
    rw [cons_append, cutCloser]
    by_cases hcloser : closer.isPrefixOf (c :: (cs ++ ' ' :: (closer ++ after))) = true
    · rw [if_pos hcloser, isPrefixOf_iff_prefix, ← cons_append] at *
      obtain ⟨behind, hbehind⟩ := prefix_of_append (by decide) hcloser
      rw [closer, cons_append, List.cons.injEq] at hbehind
      obtain ⟨rfl, rfl⟩ := hbehind
      exact .inl ⟨[], behind, rfl, rfl⟩
    · rw [if_neg hcloser]
      rcases ih with ⟨before, behind, rfl, hcut⟩ | hcut
      · exact .inl ⟨c :: before, behind, rfl, by rw [hcut]; rfl⟩
      · exact .inr (by rw [hcut]; rfl)

variable {α : Type} {read : List Char → Option α} {text after : List Char} {a : α}

/-- The reader takes the whole text when it takes no text cut at an inner closer. -/
theorem tryClosers_text (hcut : ∀ before behind, text = before ++ closer ++ behind → read before = none)
    (hwhole : read (text ++ [' ']) = some a) (taken rem : List Char) (htext : text = taken ++ rem) :
    tryClosers read taken (rem ++ ' ' :: (closer ++ after)) = some a := by
  induction hlength : rem.length using Nat.strong_induction_on generalizing taken rem with
  | _ length ih =>
    rw [tryClosers]
    rcases cutCloser_append rem after with ⟨before, behind, rfl, hcloser⟩ | hcloser
    · rw [hcloser]
      dsimp only
      have hinner := hcut (taken ++ before) behind (by rw [htext]; simp)
      rw [hinner, Option.none_or]
      refine ih behind.length ?_ (taken ++ before ++ closer) behind (by rw [htext]; simp) rfl
      rw [← hlength]
      simp [closer]
      omega
    · rw [hcloser]
      dsimp only
      rw [← append_assoc, ← htext, hwhole, Option.some_or]

end Closers

/-! ## The marker -/

/-- A text cut at a closer inside it is no JSON. -/
theorem readCandidate_cut {data : List (String × Value)} {fields : List (String × Value)}
    (hread : ReadAs (jsonCompact (.object data)) (.object fields)) {before behind : List Char}
    (h : jsonCompact (.object data) = before ++ closer ++ behind) : readCandidate before = none := by
  have hwhole := hread _ [] (Nat.le_refl _) nofun
  rw [append_nil, h] at hwhole
  rw [jsonCompact_object] at h
  rcases before with _ | ⟨c, before⟩
  · rw [closer, nil_append, cons_append, List.cons.injEq] at h
    exact absurd h.1 (by decide)
  · rw [cons_append, cons_append, List.cons.injEq] at h
    obtain ⟨rfl, -⟩ := h
    obtain ⟨text, spaces, htext, htrim, hhead⟩ := exists_trim before (c := '{') (by decide)
    rw [htext, append_assoc, append_assoc] at hwhole
    have hcut := parse_of_cut hwhole hhead (by simp [closer])
    rw [readCandidate, htrim, hcut]

theorem readCandidate_whole
    (hread : ReadAs (jsonCompact (.object data)) (.object fields)) :
    readCandidate (jsonCompact (.object data) ++ [' ']) = some (some fields) := by
  have htrim : trim (String.ofList (jsonCompact (.object data) ++ [' '])) =
      String.ofList (jsonCompact (.object data)) := by
    rw [jsonCompact_object]
    generalize join ',' ((data.map fun f => (f.1, jsonCompact f.2)).map fun p => memberText p.1 p.2) = members
    rw [← String.toList_inj, String.toList_ofList]
    have hends := @trim_append (String.ofList ('{' :: (members ++ ['}']) ++ [' '])) '{' '}' members [' ']
      (by rw [String.toList_ofList]; simp) (by decide) (by decide)
    rw [hends]
    rfl
  have hparse : parse (String.ofList (jsonCompact (.object data))) = some (.object fields) := by
    have hvalue := hread _ [] (Nat.le_succ _) nofun
    rw [append_nil] at hvalue
    rw [parse, String.toList_ofList, hvalue]
    rfl
  rw [readCandidate, htrim, hparse]

theorem afterMarkerPrefix_marker (cs : List Char) :
    afterMarkerPrefix ('<' :: ("!-- ai-pr-reviewer:".toList ++ '{' :: cs)) = some ('{' :: cs) := rfl

theorem dropPrefix_eq_some {w cs : List Char} : l.dropPrefix? w = some cs ↔ l = w ++ cs := by
  rw [List.dropPrefix?_eq_some_iff]
  constructor
  · rintro ⟨w', rfl, hw⟩
    rw [eq_of_beq hw]
  · rintro rfl
    exact ⟨w, rfl, beq_self_eq_true w⟩

theorem dropPrefix_append {w cs rest : List Char} {d : Char} (hd : d ∉ w)
    (h : (l ++ d :: rest).dropPrefix? w = some cs) :
    ∃ u, l.dropPrefix? w = some u ∧ cs = u ++ d :: rest := by
  rw [dropPrefix_eq_some] at h
  obtain ⟨u, rfl⟩ := prefix_of_append hd ⟨cs, h.symm⟩
  rw [append_assoc] at h
  exact ⟨u, dropPrefix_eq_some.mpr rfl, (append_cancel_left h).symm⟩

theorem dropWhile_append_cons {cs rest : List Char} {d : Char} (hd : isSpace d = false) :
    (cs ++ d :: rest).dropWhile isSpace = cs.dropWhile isSpace ++ d :: rest := by
  rw [dropWhile_append]
  split
  · next hnil =>
    rw [List.isEmpty_iff] at hnil
    rw [hnil, dropWhile_cons_of_neg (by simp [hd]), nil_append]
  · rfl

/-- No match that starts in a text goes on behind it with a `<`. -/
theorem afterMarkerPrefix_before {c : Char} {cs rest : List Char} (h : afterMarkerPrefix (c :: cs) = none) :
    afterMarkerPrefix (c :: cs ++ '<' :: rest) = none := by
  rw [Option.eq_none_iff_forall_ne_some]
  intro found hfound
  obtain ⟨cs₁, hopen, hfound⟩ := Option.bind_eq_some_iff.mp hfound
  obtain ⟨cs₂, hname, hfound⟩ := Option.bind_eq_some_iff.mp hfound
  have hless : isSpace '<' = false := by decide
  -- the first `<` of the match is the character `c`
  have hsplit : c :: (cs ++ '<' :: rest) = '<' :: ("!--".toList ++ cs₁) := dropPrefix_eq_some.mp hopen
  obtain ⟨rfl, htail⟩ := List.cons.inj hsplit
  have hdash : '<' ∉ "!--".toList := by decide
  obtain ⟨u₁, hu₁, rfl⟩ := dropPrefix_append hdash (dropPrefix_eq_some.mpr htail)
  rw [dropWhile_append_cons hless] at hname
  have hletter : '<' ∉ "ai-pr-reviewer:".toList := by decide
  obtain ⟨u₂, hu₂, rfl⟩ := dropPrefix_append hletter hname
  rw [dropWhile_append_cons hless] at hfound
  have hbrace : (u₂.dropWhile isSpace).head? = some '{' := by
    cases hu : u₂.dropWhile isSpace with
    | nil =>
      rw [hu] at hfound
      cases hfound
    | cons d ds =>
      rw [hu] at hfound
      dsimp only at hfound
      split at hfound
      · next hhead => exact hhead
      · cases hfound
  have hfirst : ('<' :: cs).dropPrefix? "<!--".toList = some u₁ :=
    dropPrefix_eq_some.mpr (congrArg _ (dropPrefix_eq_some.mp hu₁))
  rw [afterMarkerPrefix, hfirst, Option.bind_some, hu₂, Option.bind_some] at h
  dsimp only at h
  rw [if_pos hbrace] at h
  cases h

theorem findMarker_append {cs rest found : List Char} (hbefore : findMarker cs = none)
    (h : afterMarkerPrefix ('<' :: rest) = some found) : findMarker (cs ++ '<' :: rest) = some found := by
  induction cs with
  | nil => rw [nil_append, findMarker, h, Option.some_or]
  | cons c cs ih =>
    rw [findMarker, Option.or_eq_none_iff] at hbefore
    rw [cons_append, findMarker, ← cons_append, afterMarkerPrefix_before hbefore.1, Option.none_or, ih hbefore.2]

theorem body_text (options : MetadataOptions) (before after : String) :
    (before ++ buildMetadataMarker options ++ after).toList = before.toList ++ '<' :: ("!-- ai-pr-reviewer:".toList ++
      (jsonCompact (.object (metadata options)) ++ ' ' :: (closer ++ after.toList))) := by
  unfold buildMetadataMarker
  generalize jsonCompact (.object (metadata options)) = text
  have hopen : "<!-- ai-pr-reviewer:".toList = '<' :: "!-- ai-pr-reviewer:".toList := rfl
  have hclose : " -->".toList = ' ' :: closer := rfl
  simp only [String.toList_append, String.toList_ofList, hopen, hclose, append_assoc, cons_append]

/-- The metadata of a marker is read back as the builder serialised it, whatever stands before and behind it. -/
theorem parseMetadata_buildMetadataMarker (options : MetadataOptions) (before after : String)
    (hfinite : ∀ x ∈ options.numbers, x.isFinite = true) (hbefore : findMarker before.toList = none) :
    ∃ fields, parseMetadata (before ++ buildMetadataMarker options ++ after) = some fields ∧
      List.Forall₂ SameField (metadata options) fields := by
  obtain ⟨fields, hread, hsame⟩ := readAs_metadata hfinite
  refine ⟨fields, ?_, hsame⟩
  obtain ⟨text, htext⟩ : ∃ text, text = jsonCompact (.object (metadata options)) := ⟨_, rfl⟩
  have hcut := fun before behind => @readCandidate_cut (metadata options) fields hread before behind
  have hwhole := readCandidate_whole hread
  have hobject := jsonCompact_object (metadata options)
  rw [← htext] at hcut hwhole hobject
  have hbody := htext ▸ body_text options before after
  have hfound : findMarker (before ++ buildMetadataMarker options ++ after).toList =
      some (text ++ ' ' :: (closer ++ after.toList)) := by
    rw [hbody]
    refine findMarker_append hbefore ?_
    rw [hobject, cons_append, afterMarkerPrefix_marker]
  have htried : tryClosers readCandidate [] (text ++ ' ' :: (closer ++ after.toList)) = some (some fields) :=
    tryClosers_text hcut hwhole [] text rfl
  rw [parseMetadata, hfound, Option.bind_some, htried, Option.join_some]

theorem parseMetadata_inner_closer :
    let options : MetadataOptions := { headSha := some "a --> \x22b", cacheHitRatio := some 0.5 }
    ∃ fields, parseMetadata ("note <!-- x -->" ++ buildMetadataMarker options ++ " {} -->") = some fields ∧
      List.Forall₂ SameField (metadata options) fields :=
  parseMetadata_buildMetadataMarker _ _ _ (by decide) (by decide)

end PrReviewer.Precheck
