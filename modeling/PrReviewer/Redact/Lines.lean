import PrReviewer.Js.Join
import PrReviewer.Js.Pattern

/-!
# Masking line by line

* `redactText` replaces what looks like a credential by `[REDACTED]`, one pattern after the other, and
  `maskQuotedSecretAssignments` does so for an assignment to a quoted key. Neither brings a unit into a text that is
  neither of the text nor of the mark (`mem_redactText`, `mem_maskQuoted`), so no line break.
* `maskContentLine` masks one line; a bare secret-key line opens a run in which the lines indented deeper are masked
  whole. The state of the run is carried from line to line (`ContinuationState`).
* `redactPrTextLines` does so with one state, `redactDiffText` with one for each side of a unified diff: a context line
  advances both, and a header or any other line closes both runs.
-/

namespace PrReviewer.Redact

/-! ## Credential patterns -/

open Js Pattern List

def REDACTED : Units := units "[REDACTED]"

/-- `[_-]?`. -/
def joint : Pattern := opt (unit (anyOf "_-"))

/-- `api[_-]?key|token|password|secret|access[_-]?key|auth[_-]?token|private[_-]?key|client[_-]?key` under the flag
`i`. -/
def SECRET_KEY_ALTERNATION : Pattern :=
  choice [
    concat [literalIgnoreCase "api", joint, literalIgnoreCase "key"],
    literalIgnoreCase "token",
    literalIgnoreCase "password",
    literalIgnoreCase "secret",
    concat [literalIgnoreCase "access", joint, literalIgnoreCase "key"],
    concat [literalIgnoreCase "auth", joint, literalIgnoreCase "token"],
    concat [literalIgnoreCase "private", joint, literalIgnoreCase "key"],
    concat [literalIgnoreCase "client", joint, literalIgnoreCase "key"]]

/-- `\s*`. -/
def spaces : Pattern := star (unit isSpaceUnit)

/-- `['"]`. -/
def isQuoteUnit (u : UInt16) : Bool := u == 39 || u == 34

/-- One of the three quotes that may stand around a key. -/
def isKeyQuote (u : UInt16) : Bool := isQuoteUnit u || u == 96

/-- `[:=]`. -/
def separator : Pattern := unit (anyOf ":=")

/-- The patterns in the order in which they are applied. -/
def MASKERS : List Pattern := [
  concat [literal "ghp_", atLeast 30 (unit isAlnum)],
  concat [literal "github_pat_", atLeast 20 (unit fun u => isAlnum u || u == 95)],
  concat [literalIgnoreCase "Bearer", plus (unit isSpaceUnit), atLeast 20 (unit fun u => isAlnum u || anyOf "._-" u)],
  concat [literalIgnoreCase "Basic", plus (unit isSpaceUnit), atLeast 20 (unit fun u => isAlnum u || anyOf "+/=" u)],
  concat [group 1 SECRET_KEY_ALTERNATION, spaces, separator, spaces, opt (unit isQuoteUnit),
    atLeast 8 (unit fun u => !(isSpaceUnit u || isQuoteUnit u))],
  concat [literal "AKIA", times 16 (unit fun u => isDigitUnit u || (65 ≤ u && u ≤ 90))],
  concat [assert fun b _ => !b.any isAlnum, literal "sk-", atLeast 16 (unit fun u => isAlnum u || anyOf "_-" u)],
  concat [
    group 1 (choice [
      literalIgnoreCase "password",
      literalIgnoreCase "client-certificate-data",
      literalIgnoreCase "client-key-data",
      literalIgnoreCase "certificate-authority-data",
      concat [literalIgnoreCase "bearer", joint, literalIgnoreCase "token"]]),
    spaces, unit (· == 58), spaces, plus (unit fun u => !isSpaceUnit u)]]

def isSecretKeyName (key : Units) : Bool := SECRET_KEY_ALTERNATION.test key

/-- Applies the patterns to a text; the empty text stays. -/
def redactText (text : Units) : Units := MASKERS.foldl (fun redacted pattern => pattern.replaceAll REDACTED redacted) text

/-- `[A-Za-z0-9_.-]+`. -/
def KEY_NAME_RUN : Pattern := plus (unit fun u => isAlnum u || anyOf "_.-" u)

def QUOTED_ASSIGN_CANDIDATE_RE : Pattern :=
  concat [unit isKeyQuote, group 1 KEY_NAME_RUN, unit isKeyQuote, star (unit (anyOf " \t")), separator,
    star (unit (anyOf " \t")), opt (unit isKeyQuote), group 2 (star (unit fun u => !(isSpaceUnit u || isKeyQuote u)))]

def MIN_QUOTED_VALUE_LEN : Nat := 8

/-- The end of the assignment to a secret key that begins here, if one does. -/
def quotedAssignment (content : Units) : Option Place :=
  (QUOTED_ASSIGN_CANDIDATE_RE.matchAt [] content).filter fun candidate =>
    isSecretKeyName ((candidate.group? 1).getD []) && MIN_QUOTED_VALUE_LEN ≤ ((candidate.group? 2).getD []).length

/-- The loop of `maskQuotedSecretAssignments`; the first `n` units belong to an assignment that was masked. -/
def maskQuotedFrom : Nat → Units → Units
  | _, [] => []
  | n + 1, _ :: us => maskQuotedFrom n us
  | 0, u :: us =>
    if !isKeyQuote u then u :: maskQuotedFrom 0 us
    else match quotedAssignment (u :: us) with
      | some candidate => REDACTED ++ maskQuotedFrom (us.length - candidate.after.length) us
      | none => u :: maskQuotedFrom 0 us

def maskQuotedSecretAssignments (content : Units) : Units := maskQuotedFrom 0 content

def BARE_SECRET_KEY_LINE_RE : Pattern :=
  concat [textStart, spaces, opt (unit isKeyQuote), spaces, group 1 KEY_NAME_RUN, spaces, opt (unit isKeyQuote), spaces,
    separator, spaces,
    opt (concat [unit (anyOf "|>"), star (unit fun u => anyOf "-+" u || isDigitUnit u)]), spaces, textEnd]

def isBareSecretKeyLine (content : Units) : Bool :=
  match BARE_SECRET_KEY_LINE_RE.exec content with
  | none => false
  | some m => isSecretKeyName ((m.group? 1).getD [])

/-! ## Units of a masked text -/

variable {text : Units} {u : UInt16}

theorem mem_foldl_replaceAll {patterns : List Pattern}
    (h : u ∈ patterns.foldl (fun redacted pattern => pattern.replaceAll REDACTED redacted) text) :
    u ∈ REDACTED ∨ u ∈ text := by
  induction patterns generalizing text with
  | nil => exact .inr h
  | cons pattern patterns ih => exact (ih h).elim .inl mem_replaceAll

theorem mem_redactText (h : u ∈ redactText text) : u ∈ REDACTED ∨ u ∈ text := mem_foldl_replaceAll h

theorem mem_maskQuotedFrom {n : Nat} (h : u ∈ maskQuotedFrom n text) : u ∈ REDACTED ∨ u ∈ text := by
  induction text generalizing n with
  | nil =>
    cases n <;> simp [maskQuotedFrom] at h
  | cons v vs ih =>
    cases n with
    | succ n => exact (ih h).imp_right (mem_cons_of_mem v)
    | zero =>
      have hkeep (h : u ∈ v :: maskQuotedFrom 0 vs) : u ∈ REDACTED ∨ u ∈ v :: vs := by
        rcases mem_cons.mp h with rfl | h
        · exact .inr mem_cons_self
        · exact (ih h).imp_right (mem_cons_of_mem v)
      rw [maskQuotedFrom] at h
      split at h
      · exact hkeep h
      · split at h
        · rcases mem_append.mp h with h | h
          · exact .inl h
          · exact (ih h).imp_right (mem_cons_of_mem v)
        · exact hkeep h

theorem mem_maskQuoted (h : u ∈ maskQuotedSecretAssignments text) : u ∈ REDACTED ∨ u ∈ text := mem_maskQuotedFrom h

/-! ## Lines -/

structure ContinuationState where
  isOpen : Bool
  keyIndent : Nat
deriving DecidableEq

/-- No run is open. -/
def ContinuationState.closed : ContinuationState := ⟨false, 0⟩

def indentOf (content : Units) : Nat := (content.takeWhile isSpaceUnit).length

/-- `content.trim() === ""`. -/
def isBlank (content : Units) : Bool := content.all isSpaceUnit

/-- The line with its indentation kept and the rest masked. -/
def maskWhole (content : Units) : Units := content.take (indentOf content) ++ REDACTED

/-- The masking of a line outside a run. -/
def maskFlat (content : Units) : Units := redactText (maskQuotedSecretAssignments content)

def maskContentLine (content : Units) (state : ContinuationState) : Units × ContinuationState :=
  if isBareSecretKeyLine content then (redactText content, ⟨true, indentOf content⟩)
  else if state.isOpen then
    if indentOf content > state.keyIndent ∧ ¬ isBlank content then (maskWhole content, state)
    else (maskFlat content, { state with isOpen := false })
  else (maskFlat content, state)

/-- `text.split("\n")`. -/
def linesOf (text : Units) : List Units := text.splitOn 10

/-- `lines.join("\n")`. -/
def joinLines (lines : List Units) : Units := [10].intercalate lines

/-- The lines masked in order from a state. -/
def maskLines : ContinuationState → List Units → List Units
  | _, [] => []
  | state, line :: lines =>
    (maskContentLine line state).1 :: maskLines (maskContentLine line state).2 lines

def redactPrTextLines (text : Units) : Units :=
  if text = [] then [] else joinLines (maskLines .closed (linesOf text))

/-! ## Unified diffs -/

def isPathBearingDiffHeader (line : Units) : Bool :=
  ["diff --git ", "--- ", "+++ ", "rename from ", "rename to ", "copy from ", "copy to ", "Binary files "].any
    fun header => (units header).isPrefixOf line

/-- The states of the two sides. -/
structure DiffState where
  next : ContinuationState
  removed : ContinuationState

def DiffState.closed : DiffState := ⟨.closed, .closed⟩

/-- The function that `redactDiffText` maps over the lines, with the states of its two maskers. -/
def maskDiffLine (line : Units) (state : DiffState) : Units × DiffState :=
  if isPathBearingDiffHeader line then (redactPrTextLines line, .closed)
  else if line.head? = some 32 ∨ line.head? = some 43 then
    let (masked, next) := maskContentLine line.tail state.next
    let removed := if line.head? = some 32 then (maskContentLine line.tail state.removed).2 else state.removed
    (line.take 1 ++ masked, ⟨next, removed⟩)
  else if line.head? = some 45 then
    let (masked, removed) := maskContentLine line.tail state.removed
    (line.take 1 ++ masked, { state with removed := removed })
  else (line, .closed)

def maskDiffLines : DiffState → List Units → List Units
  | _, [] => []
  | state, line :: lines => (maskDiffLine line state).1 :: maskDiffLines (maskDiffLine line state).2 lines

def redactDiffText (diff : Units) : Units :=
  if diff = [] then [] else joinLines (maskDiffLines .closed (linesOf diff))

/-! ## Lines stay lines -/

variable {text content line : Units} {lines : List Units}

theorem lineBreak_not_mem_mark : (10 : UInt16) ∉ REDACTED := by decide +kernel

theorem lineBreak_not_mem_maskFlat (h : 10 ∉ content) : 10 ∉ maskFlat content := by
  intro hmem
  rcases mem_redactText hmem with hmem | hmem
  · exact lineBreak_not_mem_mark hmem
  · rcases mem_maskQuoted hmem with hmem | hmem
    · exact lineBreak_not_mem_mark hmem
    · exact h hmem

theorem lineBreak_not_mem_maskContentLine (h : 10 ∉ content) (state : ContinuationState) :
    10 ∉ (maskContentLine content state).1 := by
  rw [maskContentLine]
  split_ifs
  · exact fun hmem => (mem_redactText hmem).elim lineBreak_not_mem_mark h
  · intro hmem
    rcases mem_append.mp hmem with hmem | hmem
    · exact h (mem_of_mem_take hmem)
    · exact lineBreak_not_mem_mark hmem
  · exact lineBreak_not_mem_maskFlat h
  · exact lineBreak_not_mem_maskFlat h

theorem linesOf_joinLines (h : ∀ line ∈ lines, 10 ∉ line) (hne : lines ≠ []) : linesOf (joinLines lines) = lines :=
  splitOn_intercalate 10 h hne

theorem linesOf_ne_nil (text : Units) : linesOf text ≠ [] := splitOn_ne_nil _ _

theorem not_mem_of_mem_linesOf (h : line ∈ linesOf text) : 10 ∉ line := not_mem_of_mem_splitOn h

/-- A line masked on its own has no line break. -/
theorem lineBreak_not_mem_redactPrTextLines (h : 10 ∉ line) : 10 ∉ redactPrTextLines line := by
  rw [redactPrTextLines]
  split_ifs
  · simp
  · rw [linesOf, splitOn_eq_singleton h]
    simpa [maskLines, joinLines] using lineBreak_not_mem_maskContentLine h .closed

theorem lineBreak_not_mem_maskDiffLine (h : 10 ∉ line) (state : DiffState) : 10 ∉ (maskDiffLine line state).1 := by
  have hcontent (state : ContinuationState) : 10 ∉ line.take 1 ++ (maskContentLine line.tail state).1 := by
    rw [mem_append, not_or]
    exact ⟨fun hmem => h (mem_of_mem_take hmem),
      lineBreak_not_mem_maskContentLine (fun hmem => h (mem_of_mem_tail hmem)) state⟩
  rw [maskDiffLine]
  split_ifs
  · exact lineBreak_not_mem_redactPrTextLines h
  · exact hcontent _
  · exact hcontent _
  · exact hcontent _
  · exact h

theorem length_maskDiffLines (state : DiffState) (lines : List Units) : (maskDiffLines state lines).length = lines.length := by
  induction lines generalizing state with
  | nil => rfl
  | cons line lines ih => rw [maskDiffLines, length_cons, ih, length_cons]

theorem lineBreak_not_mem_maskDiffLines (h : ∀ line ∈ lines, 10 ∉ line) (state : DiffState) :
    ∀ line ∈ maskDiffLines state lines, 10 ∉ line := by
  induction lines generalizing state with
  | nil => simp [maskDiffLines]
  | cons line lines ih =>
    rw [forall_mem_cons] at h
    rw [maskDiffLines, forall_mem_cons]
    exact ⟨lineBreak_not_mem_maskDiffLine h.1 state, ih h.2 _⟩

/-- The lines of a masked diff are the masked lines; the empty diff is one line that stays. -/
theorem linesOf_redactDiffText (diff : Units) : linesOf (redactDiffText diff) = maskDiffLines .closed (linesOf diff) := by
  by_cases hne : diff = []
  · subst hne
    decide +kernel
  · rw [redactDiffText, if_neg hne]
    refine linesOf_joinLines (lineBreak_not_mem_maskDiffLines (fun line => not_mem_of_mem_linesOf) _) fun h => ?_
    have hlength := length_maskDiffLines .closed (linesOf diff)
    rw [h] at hlength
    exact linesOf_ne_nil diff (length_eq_zero_iff.mp hlength.symm)

end PrReviewer.Redact
