import PrReviewer.Enforcement.PredicateSignal

/-!
# The code scan of a whole file

`computeCodeViews` reads a file line by line. Here the same scan is followed through the text of the file, from any
place in it: `viewsAt` in code, `commentViews` and `templateViews` in an open span, `skippedViews` on a line that is
skipped. One lemma says what each of them does with the next character, and one with the text of a span.
-/

namespace PrReviewer.Enforcement

open Js List

/-! ## Lines -/

/-- The rest of the line, and the lines behind it. -/
def cutLine : List Char → List Char × List (List Char)
  | [] => ([], [])
  | c :: cs => if c = '\n' then ([], (cutLine cs).1 :: (cutLine cs).2) else (c :: (cutLine cs).1, (cutLine cs).2)

@[simp] theorem cutLine_nil : cutLine [] = ([], []) := rfl

@[simp] theorem cutLine_newline (cs : List Char) :
    cutLine ('\n' :: cs) = ([], (cutLine cs).1 :: (cutLine cs).2) := if_pos rfl

theorem cutLine_cons {c : Char} (h : c ≠ '\n') (cs : List Char) :
    cutLine (c :: cs) = (c :: (cutLine cs).1, (cutLine cs).2) := if_neg h

theorem splitOn_eq_cutLine (cs : List Char) : cs.splitOn '\n' = (cutLine cs).1 :: (cutLine cs).2 := by
  induction cs with
  | nil => rfl
  | cons c cs ih =>
    rw [splitOn_cons_eq_if_modifyHead, ih]
    by_cases h : c = '\n'
    · subst h
      rw [cutLine_newline]
      rfl
    · rw [cutLine_cons h, if_neg (by simpa using h)]
      rfl

theorem cutLine_append {a : List Char} (h : '\n' ∉ a) (b : List Char) :
    cutLine (a ++ b) = (a ++ (cutLine b).1, (cutLine b).2) := by
  induction a with
  | nil => rfl
  | cons c cs ih =>
    rw [mem_cons, not_or] at h
    rw [cons_append, cutLine_cons (Ne.symm h.1), ih h.2]
    rfl

/-! ## One line -/

variable {quote : Char} {rest line : List Char}

theorem length_findClosingQuote {cs : List Char} (h : findClosingQuote quote cs = some rest) :
    rest.length < cs.length := by
  induction cs using findClosingQuote.induct quote with
  | case1 => cases h
  | case2 => cases h
  | case3 c cs ih =>
    rw [findClosingQuote] at h
    have hlt := ih h
    simp only [length_cons]
    omega
  | case4 cs hsingle hescape =>
    rw [findClosingQuote.eq_4 _ _ _ hsingle hescape, if_pos rfl] at h
    cases h
    simp
  | case5 c cs hsingle hescape hne ih =>
    rw [findClosingQuote.eq_4 _ _ _ hsingle hescape, if_neg hne] at h
    have hlt := ih h
    simp only [length_cons]
    omega

theorem length_afterBlockComment {cs : List Char} (h : afterBlockComment cs = some rest) :
    rest.length ≤ cs.length := by
  induction cs using afterBlockComment.induct with
  | case1 => cases h
  | case2 cs =>
    cases h
    simp only [length_cons]
    omega
  | case3 c cs hne ih =>
    rw [afterBlockComment.eq_3 _ _ hne] at h
    have hle := ih h
    simp only [length_cons]
    omega

theorem length_scanTemplateContent {state : CodeSpanState} {cs : List Char}
    (h : (scanTemplateContent state cs).1 = some rest) : rest.length ≤ cs.length := by
  fun_induction scanTemplateContent state cs with
  | case1 | case5 => cases h
  | case7 =>
    cases h
    exact Nat.le_succ _
  | case2 _ _ _ ih | case3 _ _ _ _ ih | case4 _ _ _ _ _ _ ih | case9 _ _ _ _ _ _ ih | case10 _ _ _ _ _ _ _ ih =>
    exact (ih h).trans (Nat.le_succ _)
  | case6 _ _ _ _ ih | case8 _ _ _ _ _ ih =>
    have hle := ih h
    simp only [length_cons]
    omega

variable {g : Bool}

/-- More fuel than characters changes nothing. -/
theorem scanCode_congr {fuel fuel' : Nat} {s : LineScan} {state : CodeSpanState}
    (h : line.length ≤ fuel) (h' : line.length ≤ fuel') :
    scanCode g fuel s state line = scanCode g fuel' s state line := by
  induction fuel generalizing fuel' s state line with
  | zero =>
    obtain rfl := eq_nil_of_length_eq_zero (Nat.le_zero.mp h)
    cases fuel' <;> rfl
  | succ fuel ih =>
    cases line with
    | nil => cases fuel' <;> rfl
    | cons c cs =>
      cases fuel' with
      | zero => cases h'
      | succ fuel' =>
        have hle : cs.length ≤ fuel := Nat.le_of_succ_le_succ h
        have hle' : cs.length ≤ fuel' := Nat.le_of_succ_le_succ h'
        have again {s : LineScan} {state : CodeSpanState} {rest : List Char} (hrest : rest.length ≤ cs.length) :
            scanCode g fuel s state rest = scanCode g fuel' s state rest :=
          ih (hrest.trans hle) (hrest.trans hle')
        rw [scanCode, scanCode]
        split
        · rfl
        split
        · split
          · rfl
          · next rest hrest =>
            have htail : cs.tail.length ≤ cs.length := by
              rw [length_tail]
              omega
            exact again ((length_afterBlockComment hrest).trans htail)
        split
        · rfl
        split
        · split
          · rfl
          · next rest hrest => exact again (length_findClosingQuote hrest).le
        split
        · split
          · rfl
          · next rest _ hrest =>
            exact again (length_scanTemplateContent (congrArg Prod.fst hrest))
        · exact again le_rfl

variable (g) in
/-- The scan of the rest of a line. -/
def scanLine (s : LineScan) (state : CodeSpanState) (line : List Char) : LineCodeView × CodeSpanState :=
  scanCode g line.length s state line

/-- A character that opens no span and no comment. -/
def isCodeChar (c : Char) : Bool := !(['/', '#', '\'', '"', backtick].contains c)

def LineScan.push (s : LineScan) (c : Char) : LineScan := { s with run := s.run ++ [c], prev := some c }

/-- Behind a block comment. -/
def LineScan.closeComment (g : Bool) (s : LineScan) : LineScan := { s.flush g with prev := some '/' }

/-- Behind a string or a template that ends with the character `c`. -/
def LineScan.closeText (g : Bool) (s : LineScan) (c : Char) : LineScan := { (s.flush g).space with prev := some c }

def inComment : CodeSpanState := { freshSpanState with inBlockComment := true }

def inTemplate : CodeSpanState := { freshSpanState with inTemplate := true }

section

variable {s : LineScan} {state : CodeSpanState} {c : Char} {cs : List Char}

theorem scanLine_code (h : isCodeChar c = true) : scanLine g s state (c :: cs) = scanLine g (s.push c) state cs := by
  simp only [isCodeChar, List.contains_eq_mem, List.mem_cons, List.not_mem_nil, or_false, Bool.not_eq_true',
    decide_eq_false_iff_not, not_or] at h
  obtain ⟨hslash, hhash, hquote, hquotes, hbacktick⟩ := h
  rw [scanLine, List.length_cons, scanCode, if_neg (fun h => hslash h.1), if_neg (fun h => hslash h.1),
    if_neg (fun h => hhash h.1), if_neg (not_or.mpr ⟨hquote, hquotes⟩), if_neg hbacktick]
  rfl

theorem scanLine_slashes : scanLine g s state ('/' :: '/' :: cs) = (s.view g, state) := by
  rw [scanLine, List.length_cons, scanCode, if_pos ⟨rfl, rfl⟩]

theorem scanLine_hash (h : s.prev.all isSpace = true) : scanLine g s state ('#' :: cs) = (s.view g, state) := by
  rw [scanLine, List.length_cons, scanCode, if_neg (fun h => absurd h.1 (by decide)),
    if_neg (fun h => absurd h.1 (by decide)), if_pos ⟨rfl, h⟩]

theorem scanLine_comment : scanLine g s state ('/' :: '*' :: cs) =
    match afterBlockComment cs with
    | none => (s.view g, { state with inBlockComment := true })
    | some rest => scanLine g (s.closeComment g) state rest := by
  rw [scanLine, List.length_cons, scanCode, if_neg (by simp), if_pos ⟨rfl, rfl⟩, List.tail_cons]
  cases hrest : afterBlockComment cs with
  | none => rfl
  | some rest => exact scanCode_congr ((length_afterBlockComment hrest).trans (Nat.le_succ _)) le_rfl

theorem scanLine_quote (h : c = '\'' ∨ c = '"') : scanLine g s state (c :: cs) =
    match findClosingQuote c cs with
    | none => ((s.flush g).space.view g, state)
    | some rest => scanLine g (s.closeText g c) state rest := by
  have hne : c ≠ '/' ∧ c ≠ '#' := by rcases h with rfl | rfl <;> decide
  rw [scanLine, length_cons, scanCode, if_neg (fun h => hne.1 h.1), if_neg (fun h => hne.1 h.1),
    if_neg (fun h => hne.2 h.1), if_pos h]
  cases hrest : findClosingQuote c cs with
  | none => rfl
  | some rest => exact scanCode_congr (length_findClosingQuote hrest).le le_rfl

/-- A backtick behind code without slashes. -/
theorem scanLine_backtick (h : '/' ∉ s.raw ++ s.run) : scanLine g s freshSpanState (backtick :: cs) =
    match scanTemplateContent freshSpanState cs with
    | (none, state) => ((s.flush g).space.view g, { state with inTemplate := true })
    | (some rest, state) => scanLine g (s.closeText g backtick) state rest := by
  rw [scanLine, length_cons, scanCode, if_neg (fun h => absurd h.1 (by decide)),
    if_neg (fun h => absurd h.1 (by decide)), if_neg (fun h => absurd h.1 (by decide)), if_neg (by decide), if_pos rfl]
  obtain ⟨rest, state, hrest⟩ : ∃ rest state, scanTemplateContent freshSpanState cs = (rest, state) := ⟨_, _, rfl⟩
  rw [hrest]
  cases rest with
  | none =>
    rw [count_eq_zero_of_not_mem h]
    rfl
  | some rest => exact scanCode_congr (length_scanTemplateContent (congrArg Prod.fst hrest)) le_rfl

end

/-! ## A whole text -/

section

variable (g)

/-- The views from a line on whose rest is scanned from `s`. -/
def viewsAt (s : LineScan) (text : List Char) : List LineCodeView :=
  (scanLine g s freshSpanState (cutLine text).1).1 ::
    viewsFrom g (scanLine g s freshSpanState (cutLine text).1).2 (cutLine text).2

/-- The views from the start of a line on. -/
def viewsUnder (state : CodeSpanState) (text : List Char) : List LineCodeView :=
  viewsFrom g state ((cutLine text).1 :: (cutLine text).2)

/-- The views from a line on whose rest is skipped. -/
def skippedViews (text : List Char) : List LineCodeView :=
  EMPTY_LINE_VIEW :: viewsFrom g freshSpanState (cutLine text).2

end

theorem computeCodeViews_splitOn (text : List Char) :
    computeCodeViews g (text.splitOn '\n') = viewsUnder g freshSpanState text := by
  rw [splitOn_eq_cutLine]
  rfl

section

variable {s : LineScan} {state : CodeSpanState} {c : Char} {text : List Char}

theorem viewsAt_newline : viewsAt g s ('\n' :: text) = s.view g :: viewsUnder g freshSpanState text := by
  rw [viewsAt, cutLine_newline]
  rfl

theorem viewsAt_code (h : isCodeChar c = true) (hline : c ≠ '\n') :
    viewsAt g s (c :: text) = viewsAt g (s.push c) text := by
  rw [viewsAt, cutLine_cons hline, scanLine_code h]
  rfl

theorem skippedViews_newline :
    skippedViews g ('\n' :: text) = EMPTY_LINE_VIEW :: viewsUnder g freshSpanState text := by
  rw [skippedViews, cutLine_newline]
  rfl

theorem skippedViews_append {a : List Char} (h : '\n' ∉ a) : skippedViews g (a ++ text) = skippedViews g text := by
  rw [skippedViews, cutLine_append h]
  rfl

theorem viewsUnder_doc (h : isDocLine (cutLine text).1 = true) :
    viewsUnder g freshSpanState text = skippedViews g text := by
  simp [viewsUnder, viewsFrom, scanCodeView, h, skippedViews, freshSpanState]

theorem viewsUnder_fresh (h : isDocLine (cutLine text).1 = false) :
    viewsUnder g freshSpanState text = viewsAt g (.start none) text := by
  simp [viewsUnder, viewsFrom, scanCodeView, h, viewsAt, freshSpanState, scanLine]

end

theorem head_cutLine {c : Char} (h : c ≠ '\n') (text : List Char) :
    (cutLine text).1.head? = some c ↔ text.head? = some c := by
  cases text with
  | nil => simp
  | cons d cs =>
    by_cases hd : d = '\n'
    · subst hd
      rw [cutLine_newline]
      simp [Ne.symm h]
    · rw [cutLine_cons hd]
      simp

/-! ## Block comments -/

/-- The text of a block comment: `*/` is nowhere in it. -/
def blockBody : List Char → Bool
  | [] => true
  | c :: cs => !(c == '*' && cs.head? == some '/') && blockBody cs

theorem afterBlockComment_cons {c : Char} (h : ¬(c = '*' ∧ line.head? = some '/')) :
    afterBlockComment (c :: line) = afterBlockComment line := by
  refine afterBlockComment.eq_3 c line fun cs hc hline => ?_
  subst hc hline
  exact h ⟨rfl, rfl⟩

section

variable {s : LineScan} {c : Char} {text : List Char}

theorem scanCodeView_comment (line : List Char) : scanCodeView g inComment line =
    match afterBlockComment line with
    | none => (EMPTY_LINE_VIEW, inComment)
    | some rest => scanLine g (.start (some '/')) freshSpanState rest := rfl

theorem commentViews_newline :
    viewsUnder g inComment ('\n' :: text) = EMPTY_LINE_VIEW :: viewsUnder g inComment text := by
  rw [viewsUnder, cutLine_newline]
  rfl

theorem commentViews_cons (h : ¬(c = '*' ∧ text.head? = some '/')) (hline : c ≠ '\n') :
    viewsUnder g inComment (c :: text) = viewsUnder g inComment text := by
  rw [← head_cutLine (by decide)] at h
  rw [viewsUnder, viewsUnder, cutLine_cons hline, viewsFrom, viewsFrom, scanCodeView_comment, scanCodeView_comment,
    afterBlockComment_cons h]

theorem commentViews_close : viewsUnder g inComment ('*' :: '/' :: text) = viewsAt g (.start (some '/')) text := by
  rw [viewsUnder, cutLine_cons (by decide), cutLine_cons (by decide)]
  rfl

variable (g s) in
/-- The views from a line on in whose rest a block comment has just been opened. -/
def openComment (text : List Char) : List LineCodeView :=
  match afterBlockComment (cutLine text).1 with
  | none => s.view g :: viewsFrom g inComment (cutLine text).2
  | some rest =>
    (scanLine g (s.closeComment g) freshSpanState rest).1 ::
      viewsFrom g (scanLine g (s.closeComment g) freshSpanState rest).2 (cutLine text).2

theorem viewsAt_openComment : viewsAt g s ('/' :: '*' :: text) = openComment g s text := by
  rw [viewsAt, cutLine_cons (by decide), cutLine_cons (by decide), scanLine_comment, openComment]
  cases afterBlockComment (cutLine text).1 <;> rfl

theorem openComment_newline : openComment g s ('\n' :: text) = s.view g :: viewsUnder g inComment text := by
  rw [openComment, cutLine_newline]
  rfl

theorem openComment_cons (h : ¬(c = '*' ∧ text.head? = some '/')) (hline : c ≠ '\n') :
    openComment g s (c :: text) = openComment g s text := by
  rw [← head_cutLine (by decide)] at h
  rw [openComment, openComment, cutLine_cons hline, afterBlockComment_cons h]

theorem openComment_close : openComment g s ('*' :: '/' :: text) = viewsAt g (s.closeComment g) text := by
  rw [openComment, cutLine_cons (by decide), cutLine_cons (by decide)]
  rfl

theorem head_append_close {content : List Char} (h : content.head? ≠ some '/') :
    (content ++ '*' :: '/' :: text).head? ≠ some '/' := by
  cases content with
  | nil => simp
  | cons d ds => simpa using h

/-- A comment leaves one empty view for each line break in it. -/
theorem commentViews_append {content : List Char} (h : blockBody content = true) :
    viewsUnder g inComment (content ++ '*' :: '/' :: text) =
      List.replicate (content.count '\n') EMPTY_LINE_VIEW ++ viewsAt g (.start (some '/')) text := by
  induction content with
  | nil => exact commentViews_close
  | cons c cs ih =>
    simp only [blockBody, Bool.and_eq_true, Bool.not_eq_true', Bool.and_eq_false_iff, beq_eq_false_iff_ne] at h
    rw [cons_append]
    by_cases hline : c = '\n'
    · subst hline
      rw [commentViews_newline, ih h.2, count_cons_self, replicate_succ, cons_append]
    · have hopen : ¬(c = '*' ∧ (cs ++ '*' :: '/' :: text).head? = some '/') := by
        rintro ⟨rfl, hhead⟩
        exact head_append_close (h.1.resolve_left (by simp)) hhead
      rw [commentViews_cons hopen hline, ih h.2, count_cons_of_ne (Ne.symm (Ne.symm hline))]

theorem openComment_append {content : List Char} (h : blockBody content = true) :
    openComment g s (content ++ '*' :: '/' :: text) =
      if content.count '\n' = 0 then viewsAt g (s.closeComment g) text
      else s.view g :: (List.replicate (content.count '\n' - 1) EMPTY_LINE_VIEW ++
        viewsAt g (.start (some '/')) text) := by
  induction content with
  | nil => exact openComment_close
  | cons c cs ih =>
    have hbody := h
    simp only [blockBody, Bool.and_eq_true, Bool.not_eq_true', Bool.and_eq_false_iff, beq_eq_false_iff_ne] at h
    rw [cons_append]
    by_cases hline : c = '\n'
    · subst hline
      rw [openComment_newline, commentViews_append h.2, count_cons_self, if_neg (Nat.succ_ne_zero _),
        Nat.add_sub_cancel]
    · have hopen : ¬(c = '*' ∧ (cs ++ '*' :: '/' :: text).head? = some '/') := by
        rintro ⟨rfl, hhead⟩
        exact head_append_close (h.1.resolve_left (by simp)) hhead
      rw [openComment_cons hopen hline, ih h.2, count_cons_of_ne (Ne.symm (Ne.symm hline))]

end

/-! ## Templates -/

/-- The text of a template without an interpolation: every backtick in it is escaped. -/
def templateBody : List Char → Bool
  | [] => true
  | ['\\'] => false
  | '\\' :: _ :: cs => templateBody cs
  | c :: cs => c != backtick && !(c == '$' && cs.head? == some '{') && templateBody cs

section

variable {s : LineScan} {state : CodeSpanState} {c : Char} {text : List Char}

theorem scanTemplateContent_cons (hstate : state.inInterpolation = false) (hescape : c ≠ '\\') (hclose : c ≠ backtick)
    {line : List Char} (h : ¬(c = '$' ∧ line.head? = some '{')) :
    scanTemplateContent state (c :: line) = scanTemplateContent state line := by
  rw [scanTemplateContent.eq_def]
  simp only [hstate, Bool.false_eq_true, if_false, hescape, hclose]
  split
  · next hdollar =>
    split
    · exact absurd ⟨hdollar, rfl⟩ h
    · rfl
  · rfl

theorem scanTemplateContent_escape (hstate : state.inInterpolation = false) {line : List Char} :
    scanTemplateContent state ('\\' :: c :: line) = scanTemplateContent state line := by
  rw [scanTemplateContent, if_neg (by simp [hstate]), if_pos rfl]

theorem scanTemplateContent_last (hstate : state.inInterpolation = false) :
    scanTemplateContent state ['\\'] = (none, state) := by
  rw [scanTemplateContent, if_neg (by simp [hstate]), if_pos rfl]

theorem scanTemplateContent_close (hstate : state.inInterpolation = false) {line : List Char} :
    scanTemplateContent state (backtick :: line) = (some line, state) := by
  rw [scanTemplateContent.eq_def]
  simp only [hstate, Bool.false_eq_true, if_false]
  rfl

theorem scanCodeView_template (line : List Char) : scanCodeView g inTemplate line =
    match scanTemplateContent inTemplate line with
    | (none, state) => (EMPTY_LINE_VIEW, state)
    | (some rest, state) => scanLine g (.start (some backtick)) { state with inTemplate := false } rest := rfl

theorem templateViews_newline :
    viewsUnder g inTemplate ('\n' :: text) = EMPTY_LINE_VIEW :: viewsUnder g inTemplate text := by
  rw [viewsUnder, cutLine_newline]
  rfl

theorem templateViews_cons (hescape : c ≠ '\\') (hclose : c ≠ backtick) (h : ¬(c = '$' ∧ text.head? = some '{'))
    (hline : c ≠ '\n') : viewsUnder g inTemplate (c :: text) = viewsUnder g inTemplate text := by
  rw [← head_cutLine (by decide)] at h
  rw [viewsUnder, viewsUnder, cutLine_cons hline, viewsFrom, viewsFrom, scanCodeView_template, scanCodeView_template,
    scanTemplateContent_cons rfl hescape hclose h]

theorem templateViews_escape (hline : c ≠ '\n') :
    viewsUnder g inTemplate ('\\' :: c :: text) = viewsUnder g inTemplate text := by
  rw [viewsUnder, viewsUnder, cutLine_cons (by decide), cutLine_cons hline, viewsFrom, viewsFrom, scanCodeView_template,
    scanCodeView_template, scanTemplateContent_escape rfl]

theorem templateViews_escapedNewline :
    viewsUnder g inTemplate ('\\' :: '\n' :: text) = EMPTY_LINE_VIEW :: viewsUnder g inTemplate text := by
  rw [viewsUnder, cutLine_cons (by decide), cutLine_newline, viewsFrom, scanCodeView_template,
    scanTemplateContent_last rfl]
  rfl

theorem templateViews_close : viewsUnder g inTemplate (backtick :: text) = viewsAt g (.start (some backtick)) text := by
  rw [viewsUnder, cutLine_cons (by decide), viewsFrom, scanCodeView_template, scanTemplateContent_close rfl]
  rfl

variable (g s) in
/-- The views from a line on in whose rest a template has just been opened. -/
def openTemplate (text : List Char) : List LineCodeView :=
  match scanTemplateContent freshSpanState (cutLine text).1 with
  | (none, state) => (s.flush g).space.view g :: viewsFrom g { state with inTemplate := true } (cutLine text).2
  | (some rest, state) =>
    (scanLine g (s.closeText g backtick) state rest).1 ::
      viewsFrom g (scanLine g (s.closeText g backtick) state rest).2 (cutLine text).2

theorem viewsAt_openTemplate (h : '/' ∉ s.raw ++ s.run) : viewsAt g s (backtick :: text) = openTemplate g s text := by
  rw [viewsAt, cutLine_cons (by decide), scanLine_backtick h, openTemplate]
  obtain ⟨rest, state, hrest⟩ : ∃ rest state, scanTemplateContent freshSpanState (cutLine text).1 = (rest, state) :=
    ⟨_, _, rfl⟩
  rw [hrest]
  cases rest <;> rfl

theorem openTemplate_newline :
    openTemplate g s ('\n' :: text) = (s.flush g).space.view g :: viewsUnder g inTemplate text := by
  rw [openTemplate, cutLine_newline]
  rfl

theorem openTemplate_cons (hescape : c ≠ '\\') (hclose : c ≠ backtick) (h : ¬(c = '$' ∧ text.head? = some '{'))
    (hline : c ≠ '\n') : openTemplate g s (c :: text) = openTemplate g s text := by
  rw [← head_cutLine (by decide)] at h
  rw [openTemplate, openTemplate, cutLine_cons hline, scanTemplateContent_cons rfl hescape hclose h]

theorem openTemplate_escape (hline : c ≠ '\n') : openTemplate g s ('\\' :: c :: text) = openTemplate g s text := by
  rw [openTemplate, openTemplate, cutLine_cons (by decide), cutLine_cons hline, scanTemplateContent_escape rfl]

theorem openTemplate_escapedNewline :
    openTemplate g s ('\\' :: '\n' :: text) = (s.flush g).space.view g :: viewsUnder g inTemplate text := by
  rw [openTemplate, cutLine_cons (by decide), cutLine_newline, scanTemplateContent_last rfl]
  rfl

theorem openTemplate_close : openTemplate g s (backtick :: text) = viewsAt g (s.closeText g backtick) text := by
  rw [openTemplate, cutLine_cons (by decide), scanTemplateContent_close rfl]
  rfl

theorem head_append_backtick {content : List Char} (h : content.head? ≠ some '{') :
    (content ++ backtick :: text).head? ≠ some '{' := by
  cases content with
  | nil => exact fun heq => absurd (Option.some.inj heq) (by decide)
  | cons d ds => simpa using h

/-- A template leaves one empty view for each line break in it. -/
theorem templateViews_append {content : List Char} (h : templateBody content = true) :
    viewsUnder g inTemplate (content ++ backtick :: text) =
      List.replicate (content.count '\n') EMPTY_LINE_VIEW ++ viewsAt g (.start (some backtick)) text := by
  induction content using templateBody.induct with
  | case1 => exact templateViews_close
  | case2 => cases h
  | case3 d cs ih =>
    rw [templateBody] at h
    rw [cons_append, cons_append, count_cons_of_ne (by decide)]
    by_cases hline : d = '\n'
    · subst hline
      rw [templateViews_escapedNewline, ih h, count_cons_self, replicate_succ, cons_append]
    · rw [templateViews_escape hline, ih h, count_cons_of_ne hline]
  | case4 c cs hlast hescape ih =>
    rw [templateBody.eq_4 _ _ hlast hescape] at h
    simp only [Bool.and_eq_true, bne_iff_ne, Bool.not_eq_true', Bool.and_eq_false_iff, beq_eq_false_iff_ne] at h
    have hslash : c ≠ '\\' := by
      rintro rfl
      cases cs with
      | nil => exact hlast rfl rfl
      | cons d ds => exact hescape d ds rfl rfl
    rw [cons_append]
    by_cases hline : c = '\n'
    · subst hline
      rw [templateViews_newline, ih h.2, count_cons_self, replicate_succ, cons_append]
    · have hopen : ¬(c = '$' ∧ (cs ++ backtick :: text).head? = some '{') := by
        rintro ⟨rfl, hhead⟩
        exact head_append_backtick (h.1.2.resolve_left (by simp)) hhead
      rw [templateViews_cons hslash h.1.1 hopen hline, ih h.2, count_cons_of_ne hline]

theorem openTemplate_append {content : List Char} (h : templateBody content = true) :
    openTemplate g s (content ++ backtick :: text) =
      if content.count '\n' = 0 then viewsAt g (s.closeText g backtick) text
      else (s.flush g).space.view g :: (List.replicate (content.count '\n' - 1) EMPTY_LINE_VIEW ++
        viewsAt g (.start (some backtick)) text) := by
  induction content using templateBody.induct with
  | case1 => exact openTemplate_close
  | case2 => cases h
  | case3 d cs ih =>
    rw [templateBody] at h
    rw [cons_append, cons_append, count_cons_of_ne (by decide)]
    by_cases hline : d = '\n'
    · subst hline
      rw [openTemplate_escapedNewline, templateViews_append h, count_cons_self, if_neg (Nat.succ_ne_zero _),
        Nat.add_sub_cancel]
    · rw [openTemplate_escape hline, ih h, count_cons_of_ne hline]
  | case4 c cs hlast hescape ih =>
    rw [templateBody.eq_4 _ _ hlast hescape] at h
    simp only [Bool.and_eq_true, bne_iff_ne, Bool.not_eq_true', Bool.and_eq_false_iff, beq_eq_false_iff_ne] at h
    have hslash : c ≠ '\\' := by
      rintro rfl
      cases cs with
      | nil => exact hlast rfl rfl
      | cons d ds => exact hescape d ds rfl rfl
    rw [cons_append]
    by_cases hline : c = '\n'
    · subst hline
      rw [openTemplate_newline, templateViews_append h.2, count_cons_self, if_neg (Nat.succ_ne_zero _),
        Nat.add_sub_cancel]
    · have hopen : ¬(c = '$' ∧ (cs ++ backtick :: text).head? = some '{') := by
        rintro ⟨rfl, hhead⟩
        exact head_append_backtick (h.1.2.resolve_left (by simp)) hhead
      rw [openTemplate_cons hslash h.1.1 hopen hline, ih h.2, count_cons_of_ne hline]

end

/-! ## Strings and line comments -/

/-- The text of a string on one line: every quote of its kind in it is escaped. -/
def stringBody (quote : Char) : List Char → Bool
  | [] => true
  | ['\\'] => false
  | '\\' :: c :: cs => c != '\n' && stringBody quote cs
  | c :: cs => c != quote && c != '\n' && stringBody quote cs

theorem findClosingQuote_append (hquote : quote = '\'' ∨ quote = '"') {content : List Char}
    (h : stringBody quote content = true) (rest : List Char) :
    findClosingQuote quote (content ++ quote :: rest) = some rest ∧ '\n' ∉ content := by
  induction content using stringBody.induct with
  | case1 => rcases hquote with rfl | rfl <;> simp [findClosingQuote]
  | case2 => cases h
  | case3 c cs ih =>
    rw [stringBody, Bool.and_eq_true, bne_iff_ne] at h
    rw [List.cons_append, List.cons_append, findClosingQuote, List.mem_cons, List.mem_cons]
    exact ⟨(ih h.2).1, by simp [Ne.symm h.1, (ih h.2).2]⟩
  | case4 c cs hlast hescape ih =>
    rw [stringBody.eq_4 _ _ _ hlast hescape] at h
    simp only [Bool.and_eq_true, bne_iff_ne] at h
    have hslash : c ≠ '\\' := by
      rintro rfl
      cases cs with
      | nil => exact hlast rfl rfl
      | cons d ds => exact hescape d ds rfl rfl
    rw [List.cons_append, findClosingQuote.eq_4 _ _ _ (fun heq => absurd heq hslash) (fun _ _ heq => absurd heq hslash),
      if_neg h.1.1, List.mem_cons]
    exact ⟨(ih h.2).1, by simp [Ne.symm h.1.2, (ih h.2).2]⟩

section

variable {s : LineScan} {text content : List Char}

theorem viewsAt_string {quote : Char} (hquote : quote = '\'' ∨ quote = '"') (h : stringBody quote content = true) :
    viewsAt g s (quote :: (content ++ quote :: text)) = viewsAt g (s.closeText g quote) text := by
  have hne : quote ≠ '\n' := by rcases hquote with rfl | rfl <;> decide
  obtain ⟨hclose, hline⟩ := findClosingQuote_append hquote h (cutLine text).1
  rw [viewsAt, cutLine_cons hne, cutLine_append hline, cutLine_cons hne, scanLine_quote hquote, hclose]
  rfl

theorem viewsAt_slashes (h : '\n' ∉ content) (hnext : text = [] ∨ text.head? = some '\n') :
    viewsAt g s ('/' :: '/' :: (content ++ text)) = viewsAt g s text := by
  rw [viewsAt, cutLine_cons (by decide), cutLine_cons (by decide), cutLine_append h, scanLine_slashes]
  rcases hnext with rfl | hnext
  · rfl
  · obtain ⟨cs, rfl⟩ := List.head?_eq_some_iff.mp hnext
    rw [viewsAt_newline, cutLine_newline]
    rfl

theorem viewsAt_hash (hprev : s.prev.all isSpace = true) (h : '\n' ∉ content)
    (hnext : text = [] ∨ text.head? = some '\n') : viewsAt g s ('#' :: (content ++ text)) = viewsAt g s text := by
  rw [viewsAt, cutLine_cons (by decide), cutLine_append h, scanLine_hash hprev]
  rcases hnext with rfl | hnext
  · rfl
  · obtain ⟨cs, rfl⟩ := List.head?_eq_some_iff.mp hnext
    rw [viewsAt_newline, cutLine_newline]
    rfl

end

end PrReviewer.Enforcement
