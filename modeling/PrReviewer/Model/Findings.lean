import PrReviewer.Model.Verdict

/-!
# Findings of the model

`normalizeFindings`: the entries of `findings` with a usable message, up to the cap, most decisive first.

- `Finding.IsDeclared`: the finding has the declared shape. All of it holds by construction except for the
  severity, which the alias table can answer with an inherited member, and the line, which a long text of
  digits makes infinite (`isDeclared_findingOf`).
-/

open Js List

namespace PrReviewer.Model

/-! ## Suggestions -/

/-- `value.replace(/\r\n/g, "\n").replace(/\r/g, "\n")`. -/
def lineFeeds : List Char → List Char
  | '\r' :: '\n' :: cs => '\n' :: lineFeeds cs
  | '\r' :: cs => '\n' :: lineFeeds cs
  | c :: cs => c :: lineFeeds cs
  | [] => []

/-- `text.split("\n")`. -/
def linesOf (text : List Char) : List (List Char) := text.splitOn '\n'

def trimChars (cs : List Char) : List Char := (trim (String.ofList cs)).toList

def backtick : Char := Char.ofNat 0x60

/-- The line begins with three backticks or three tildes, white space aside. -/
def startsFence (line : List Char) : Bool :=
  (List.replicate 3 backtick).isPrefixOf (trimChars line) || ['~', '~', '~'].isPrefixOf (trimChars line)

/-- The indexes of the first and the last line that are not blank. -/
def contentRange (lines : List (List Char)) : Option (Nat × Nat) :=
  let isContent (line : List Char) : Bool := trimChars line != []
  match lines.findIdx? isContent, lines.reverse.findIdx? isContent with
  | some first, some last => some (first, lines.length - 1 - last)
  | _, _ => none

/-- A value that is one fenced block without its fence lines; any other value as it is. -/
def unfenced (normalized : List Char) : List Char :=
  let lines := linesOf normalized
  match contentRange lines with
  | none => normalized
  | some (first, last) =>
    let opening := trimChars (lines.getD first [])
    let closing := trimChars (lines.getD last [])
    if first < last ∧ (List.replicate 3 backtick).isPrefixOf opening = true
        ∧ 3 ≤ closing.length ∧ closing.all (· == backtick) = true then
      trimChars (['\n'].intercalate ((lines.eraseIdx last).eraseIdx first))
    else normalized

def normalizeFindingSuggestion (value : String) : Option String :=
  let candidate := unfenced (lineFeeds value.toList)
  if candidate = [] then none
  else if (linesOf candidate).any startsFence then none
  else if strLength (String.ofList candidate) > maxFindingSuggestionChars then none
  else some (String.ofList candidate)

/-! ## Findings -/

structure NormalizedFinding where
  severity : Member Enforcement.Severity
  category : String
  file : Option String
  line : Option Number
  message : String
  preliminaryFinding : Option Number := none
  endLine : Option Number := none
  suggestion : Option String := none
  agentPrompt : Option String := none

/-- `FINDING_CATEGORIES`. -/
def findingCategories : List String :=
  ["bug", "security", "performance", "style", "docs", "tests", "question", "other", "verification"]

/-- The message of an entry, when it is a text that is not blank. -/
def messageOf (item : Value) : Option String :=
  if !isRecord item then none
  else
    (nullish (nullish (item.get "message") (item.get "summary")) (item.get "title")).string?.bind fun message =>
      if trim message == "" then none else some message

def severityFor (toLowerCase : String → String) (item : Value) : Member Enforcement.Severity :=
  match (item.get "severity").string? with
  | none => .own .info
  | some raw => (memberOf severityAliases (toLowerCase (trim raw))).getD (.own .info)

def categoryFor (toLowerCase : String → String) (item : Value) : String :=
  match (item.get "category").string? with
  | none => "other"
  | some raw =>
    let candidate := toLowerCase (trim raw)
    if findingCategories.contains candidate then candidate else "other"

/-- `while (path.startsWith("./")) path = path.slice(2)`. -/
def withoutDotSlash : List Char → List Char
  | '.' :: '/' :: cs => withoutDotSlash cs
  | cs => cs

def fileFor (item : Value) : Option String :=
  (nullish (item.get "file") (item.get "path")).string?.bind fun raw =>
    orNull (String.ofList (withoutDotSlash (trim raw).toList))

/-- `/^\d+$/`. -/
def isDigits (text : String) : Bool := text != "" && text.toList.all isDigit

def lineFor (item : Value) : Option Number :=
  match item.get "line" with
  | .string raw =>
    if isDigits (trim raw) then
      -- `Number.parseInt`
      let parsed := Number.ofDigits (trim raw)
      if 0 < parsed then some parsed else none
    else none
  | value => value.toNumber?.filter fun x => x.isInteger && 0 < x

/-- `text.replace(FINDING_AGENT_PROMPT_CONTROL, "").trim()`, bounded. -/
def agentPromptFor (item : Value) : Option String :=
  (item.get "agent_prompt").string?.bind fun raw =>
    let kept := raw.toList.filter fun c => !(c.toNat ≤ 0x08 || (0x0B ≤ c.toNat && c.toNat ≤ 0x1F))
    let prompt := trim (String.ofList kept)
    if prompt == "" || strLength prompt > maxFindingAgentPromptChars then none else some prompt

/-- One entry; `none` where it has no usable message. -/
def findingOf (toLowerCase : String → String) (item : Value) : Option NormalizedFinding :=
  (messageOf item).map fun message =>
    { severity := severityFor toLowerCase item
      category := categoryFor toLowerCase item
      file := fileFor item
      line := lineFor item
      message := sliceTo maxFindingMessageChars (trim message)
      preliminaryFinding := (item.get "preliminary_finding").toNumber?.filter Number.isInteger
      endLine := (item.get "end_line").toNumber?.filter fun x => x.isInteger && 1 ≤ x
      suggestion := (item.get "suggestion").string?.bind normalizeFindingSuggestion
      agentPrompt := agentPromptFor item }

/-- `SEVERITY_RANK[finding.severity] ?? 3`: an inherited member is the key of no entry. -/
def NormalizedFinding.rank (finding : NormalizedFinding) : Nat :=
  match finding.severity with
  | .own .blocker => 0
  | .own .major => 1
  | .own .minor => 2
  | .own .info => 3
  | .inherited _ => 3

def isBefore (f g : NormalizedFinding) : Bool := f.rank ≤ g.rank

/-- The elements of a value that is an array. -/
def elementsOf : Value → List Value
  | .array items => items
  | _ => []

/-- The findings before the sort. -/
def readFindings (toLowerCase : String → String) (value : Value) : List NormalizedFinding :=
  ((elementsOf value).filterMap (findingOf toLowerCase)).take maxFindings

/-- `Array.prototype.sort` is stable. -/
def normalizeFindings (toLowerCase : String → String) (value : Value) : List NormalizedFinding :=
  (readFindings toLowerCase value).mergeSort isBefore

/-! ## The shape of a finding -/

/-- The finding has the declared shape. -/
structure NormalizedFinding.IsDeclared (finding : NormalizedFinding) : Prop where
  severity : ∃ severity, finding.severity = .own severity
  category : finding.category ∈ findingCategories
  line : ∀ line, finding.line = some line → line.isFinite = true ∧ line.isInteger = true ∧ 0 < line
  message : trim finding.message ≠ ""
  suggestion : ∀ suggestion, finding.suggestion = some suggestion →
    ∀ line ∈ linesOf suggestion.toList, startsFence line = false

/-- The severity is a name that the alias table inherits. -/
def hasInheritedSeverity (toLowerCase : String → String) (item : Value) : Bool :=
  (item.get "severity").string?.any fun raw =>
    (severityAliases.lookup (toLowerCase (trim raw))).isNone
      && objectPrototype.contains (toLowerCase (trim raw))

/-- The line is a text of digits that no finite number stands for. -/
def hasInfiniteLine (item : Value) : Bool :=
  (item.get "line").string?.any fun raw =>
    isDigits (trim raw) && !(Number.ofDigits (trim raw)).isFinite

theorem memberOf_inherited_iff {α : Type} (table : List (String × α)) (key : String) :
    (∃ name, memberOf table key = some (.inherited name)) ↔
      (table.lookup key).isNone = true ∧ objectPrototype.contains key = true := by
  unfold memberOf
  cases hown : table.lookup key with
  | some a => simp
  | none => cases hproto : objectPrototype.contains key <;> simp

theorem severityFor_own_iff (toLowerCase : String → String) (item : Value) :
    (∃ severity, severityFor toLowerCase item = .own severity) ↔
      hasInheritedSeverity toLowerCase item = false := by
  unfold severityFor hasInheritedSeverity
  cases hraw : (item.get "severity").string? with
  | none => simp
  | some raw =>
    have hinherited := memberOf_inherited_iff severityAliases (toLowerCase (trim raw))
    dsimp only [Option.any_some]
    rw [← Bool.and_eq_true] at hinherited
    rw [Bool.eq_false_iff, ne_eq, ← hinherited]
    rcases memberOf severityAliases (toLowerCase (trim raw)) with _ | severity | name <;> simp

theorem category_declared (toLowerCase : String → String) (item : Value) :
    categoryFor toLowerCase item ∈ findingCategories := by
  have hother : "other" ∈ findingCategories := by decide
  unfold categoryFor
  split
  · exact hother
  · dsimp only
    split
    · rename_i hlisted
      exact contains_iff_mem.mp hlisted
    · exact hother

/-- A line is finite unless it is a text of too many digits. -/
theorem lineFor_declared_iff (item : Value) :
    (∀ line, lineFor item = some line → line.isFinite = true ∧ line.isInteger = true ∧ 0 < line) ↔
      hasInfiniteLine item = false := by
  have hnumber : ∀ value : Value, ∀ line,
      (value.toNumber?.filter fun x => x.isInteger && 0 < x) = some line →
        line.isFinite = true ∧ line.isInteger = true ∧ 0 < line := by
    intro value line hline
    obtain ⟨-, hkept⟩ := Option.filter_eq_some_iff.mp hline
    rw [Bool.and_eq_true, decide_eq_true_eq] at hkept
    exact ⟨Number.isFinite_of_isInteger hkept.1, hkept⟩
  unfold lineFor hasInfiniteLine
  cases item.get "line" with
  | string raw =>
    dsimp only [Value.string?]
    rw [Option.any_some]
    cases hdigits : isDigits (trim raw) with
    | false => simp
    | true =>
      cases hfinite : (Number.ofDigits (trim raw)).isFinite with
      | false =>
        have hpos := Number.pos_of_not_isFinite_ofDigits hfinite
        simp [hpos, hfinite]
      | true =>
        have hwhole := Number.isInteger_ofDigits hfinite
        simp [hfinite, hwhole]
  | undefined => exact iff_of_true (hnumber .undefined) rfl
  | null => exact iff_of_true (hnumber .null) rfl
  | bool b => exact iff_of_true (hnumber (.bool b)) rfl
  | number x => exact iff_of_true (hnumber (.number x)) rfl
  | count n => exact iff_of_true (hnumber (.count n)) rfl
  | array items => exact iff_of_true (hnumber (.array items)) rfl
  | object fields => exact iff_of_true (hnumber (.object fields)) rfl

theorem suggestion_unfenced {value suggestion : String}
    (h : normalizeFindingSuggestion value = some suggestion) :
    ∀ line ∈ linesOf suggestion.toList, startsFence line = false := by
  unfold normalizeFindingSuggestion at h
  dsimp only at h
  split at h
  · cases h
  · split at h
    · cases h
    · rename_i hnone
      split at h
      · cases h
      · cases h
        intro line hline
        rw [String.toList_ofList] at hline
        rw [Bool.not_eq_true, any_eq_false] at hnone
        exact Bool.eq_false_iff.mpr (hnone line hline)

theorem messageOf_ne {item : Value} {message : String} (h : messageOf item = some message) :
    trim message ≠ "" := by
  unfold messageOf at h
  split at h
  · cases h
  · obtain ⟨raw, -, hkept⟩ := Option.bind_eq_some_iff.mp h
    split at hkept
    · cases hkept
    · rename_i hne
      cases hkept
      simpa using hne

/-- A bounded trimmed text is not blank when the text is not. -/
theorem trim_sliceTo {limit : Nat} (hlimit : 2 ≤ limit) {text : String} (h : trim text ≠ "") :
    trim (sliceTo limit (trim text)) ≠ "" := by
  obtain ⟨c, hhead⟩ : ∃ c, (trim text).toList.head? = some c := by
    cases hlist : (trim text).toList with
    | nil => exact absurd (String.toList_eq_nil_iff.mp hlist) h
    | cons c cs => exact ⟨c, rfl⟩
  have hspace := trim_head hhead
  obtain ⟨cs, hlist⟩ := List.head?_eq_some_iff.mp hhead
  have hunits : (charUnits c).length ≤ limit := by
    unfold charUnits
    split
    · exact Nat.le_trans (Nat.le_succ 1) hlimit
    · exact hlimit
  rw [sliceTo, hlist, takeUnits, if_pos hunits]
  exact trim_ne_empty hspace

/-- A finding has the declared shape unless its severity is inherited or its line infinite. -/
theorem isDeclared_findingOf {toLowerCase : String → String} {item : Value} {finding : NormalizedFinding}
    (h : findingOf toLowerCase item = some finding) :
    finding.IsDeclared ↔ hasInheritedSeverity toLowerCase item = false ∧ hasInfiniteLine item = false := by
  obtain ⟨message, hmessage, rfl⟩ := Option.map_eq_some_iff.mp h
  rw [← severityFor_own_iff, ← lineFor_declared_iff]
  refine ⟨fun hdeclared => ⟨hdeclared.severity, hdeclared.line⟩, fun ⟨hseverity, hline⟩ => ?_⟩
  exact
    { severity := hseverity
      category := category_declared toLowerCase item
      line := hline
      message := trim_sliceTo (by decide) (messageOf_ne hmessage)
      suggestion := fun suggestion hsuggestion => by
        obtain ⟨raw, -, hraw⟩ := Option.bind_eq_some_iff.mp hsuggestion
        exact suggestion_unfenced hraw }

/-! ## The order of the findings -/

theorem isBefore_trans (f g h : NormalizedFinding) (hfg : isBefore f g = true)
    (hgh : isBefore g h = true) : isBefore f h = true := by
  unfold isBefore at *
  rw [decide_eq_true_eq] at *
  exact Nat.le_trans hfg hgh

theorem isBefore_total (f g : NormalizedFinding) : (isBefore f g || isBefore g f) = true := by
  unfold isBefore
  rw [Bool.or_eq_true, decide_eq_true_eq, decide_eq_true_eq]
  exact Nat.le_total f.rank g.rank

theorem perm_normalizeFindings (toLowerCase : String → String) (value : Value) :
    (normalizeFindings toLowerCase value).Perm (readFindings toLowerCase value) :=
  mergeSort_perm _ _

theorem sorted_normalizeFindings (toLowerCase : String → String) (value : Value) :
    (normalizeFindings toLowerCase value).Pairwise fun f g => f.rank ≤ g.rank := by
  refine (pairwise_mergeSort isBefore_trans isBefore_total _).imp ?_
  intro f g hbefore
  exact of_decide_eq_true hbefore

/-- Within one severity the order of the model stays. -/
theorem filter_sorted (toLowerCase : String → String) (value : Value)
    (severity : Member Enforcement.Severity) :
    (normalizeFindings toLowerCase value).filter (·.severity = severity) =
      (readFindings toLowerCase value).filter (·.severity = severity) := by
  have hequal : ((readFindings toLowerCase value).filter (·.severity = severity)).Pairwise
      fun f g => isBefore f g = true := by
    refine pairwise_of_forall_mem_list fun f hf g hg => ?_
    have hsf := of_decide_eq_true (mem_filter.mp hf).2
    have hsg := of_decide_eq_true (mem_filter.mp hg).2
    unfold isBefore NormalizedFinding.rank
    rw [hsf, hsg]
    exact decide_eq_true (Nat.le_refl _)
  have hsublist := sublist_mergeSort isBefore_trans isBefore_total hequal filter_sublist
  have hkept := hsublist.filter (·.severity = severity)
  simp only [filter_filter, Bool.and_self] at hkept
  refine (hkept.eq_of_length ?_).symm
  exact ((perm_normalizeFindings toLowerCase value).filter _).length_eq.symm

end PrReviewer.Model
