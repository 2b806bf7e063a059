import Mathlib.Data.List.Forall2
import Mathlib.Data.List.Induction
import PrReviewer.Enforcement.CodeText

/-!
# What the code scan reads of a file

A file is a sequence of tokens: characters of code, strings on one line, line comments, block comments and templates
without interpolations. `Same` tokens differ in the content of a span only, and have as many line breaks.

- On a line that starts with `*`, outside of any span, the scan reads nothing, and so it does not see a span that opens
  there. `Clean` files have no such line on which a span opens that goes on to the next line.
- In a clean file the views do not depend on the contents (`viewsUnder_congr`); in any other file they do
  (`exists_changed`).
- A line with a generic argument list in it has a `<`, and is a predicate before the list is blanked
  (`signal_of_blanked`).
-/

namespace PrReviewer.Enforcement

open Js List

inductive Token where
  /-- One character of code. -/
  | code (c : Char)
  | string (quote : Char) (content : List Char)
  /-- A comment to the end of the line, behind `#` or `//`. -/
  | line (hash : Bool) (content : List Char)
  | block (content : List Char)
  | template (content : List Char)

namespace Token

def text : Token → List Char
  | code c => [c]
  | string quote content => quote :: (content ++ [quote])
  | line true content => '#' :: content
  | line false content => '/' :: '/' :: content
  | block content => '/' :: '*' :: (content ++ ['*', '/'])
  | template content => backtick :: (content ++ [backtick])

def Valid : Token → Prop
  | code c => isCodeChar c = true
  | string quote content => (quote = '\'' ∨ quote = '"') ∧ stringBody quote content = true
  | line _ content => '\n' ∉ content
  | block content => blockBody content = true
  | template content => templateBody content = true

instance : (t : Token) → Decidable t.Valid
  | code _ => inferInstanceAs (Decidable (_ = true))
  | string _ _ => inferInstanceAs (Decidable (_ ∧ _))
  | line _ _ => inferInstanceAs (Decidable (¬_))
  | block _ => inferInstanceAs (Decidable (_ = true))
  | template _ => inferInstanceAs (Decidable (_ = true))

/-- The character before a place behind the token, on the line of that place. -/
def last : Token → Option Char
  | code c => if c = '\n' then none else some c
  | string quote _ => some quote
  | line _ _ => none
  | block _ => some '/'
  | template _ => some backtick

/-- The same token, up to the content of a span and with as many line breaks in it. -/
def Same : Token → Token → Prop
  | code c, code d => c = d
  | string quote _, string quote' _ => quote = quote'
  | line hash _, line hash' _ => hash = hash'
  | block content, block content' => content.count '\n' = content'.count '\n'
  | template content, template content' => content.count '\n' = content'.count '\n'
  | _, _ => False

end Token

def fileText (ts : List Token) : List Char := ts.flatMap Token.text

/-- The tokens are valid, a line comment lasts to the end of its line, and one behind `#` starts a line or stands behind
white space; `prev` is the character before the first token. -/
def WellFormed (prev : Option Char) : List Token → Prop
  | [] => True
  | .line hash content :: ts =>
    Token.Valid (.line hash content) ∧ (hash = true → prev.all isSpace = true) ∧
      (ts = [] ∨ ts.head? = some (.code '\n')) ∧ WellFormed none ts
  | t :: ts => t.Valid ∧ WellFormed t.last ts

/-- A file as a sequence of tokens. -/
def IsFile (ts : List Token) : Prop := WellFormed none ts

/-- Where a place is on its line: behind white space only, in a line that is scanned, in a line that is skipped. -/
inductive Mode where
  | start
  | code
  | skipped

def Mode.next : Mode → Token → Mode
  | m, .code c =>
    if c = '\n' then .start
    else match m with
      | .start => if isSpace c then .start else if c = '*' then .skipped else .code
      | m => m
  | .skipped, _ => .skipped
  | _, _ => .code

/-- A span that opens on a line that is skipped, and goes on to the next line. -/
def Mode.leaks : Mode → Token → Bool
  | .skipped, .block content | .skipped, .template content => content.contains '\n'
  | _, _ => false

def CleanFrom (m : Mode) : List Token → Prop
  | [] => True
  | t :: ts => m.leaks t = false ∧ CleanFrom (m.next t) ts

/-- No line that starts with `*` outside of any span opens a block comment or a template that goes on to the next line. -/
def Clean (ts : List Token) : Prop := CleanFrom .start ts

/-! ## The start of a line -/

variable {c : Char} {prev : Option Char} {ts : List Token}

theorem isCodeChar_of_isSpace (h : isSpace c = true) : isCodeChar c = true := by
  have hslash : isSpace '/' = false := by decide
  have hhash : isSpace '#' = false := by decide
  have hquote : isSpace '\'' = false := by decide
  have hquotes : isSpace '"' = false := by decide
  have hbacktick : isSpace backtick = false := by decide
  simp only [isCodeChar, contains_eq_mem, mem_cons, not_mem_nil, or_false, Bool.not_eq_true',
    decide_eq_false_iff_not, not_or]
  refine ⟨?_, ?_, ?_, ?_, ?_⟩ <;> rintro rfl <;> simp_all

/-- White space other than line breaks. -/
def Blank (w : List Char) : Prop := ∀ c ∈ w, isSpace c = true ∧ c ≠ '\n'

/-- The scan of a line behind the white space it starts with. -/
def LineScan.behind (w : List Char) : LineScan := ⟨[], [], w, w.getLast?⟩

variable {g : Bool} {w text : List Char}

theorem Blank.append (hw : Blank w) (h : isSpace c = true) (hline : c ≠ '\n') : Blank (w ++ [c]) := by
  intro d hd
  rcases mem_append.mp hd with hd | hd
  · exact hw d hd
  · obtain rfl := mem_singleton.mp hd
    exact ⟨h, hline⟩

theorem Blank.newline_not_mem (hw : Blank w) : '\n' ∉ w := fun h => (hw _ h).2 rfl

theorem viewsAt_blank (hw : Blank w) : viewsAt g (.start none) (w ++ text) = viewsAt g (.behind w) text := by
  induction w using List.reverseRecOn generalizing text with
  | nil => rfl
  | append_singleton w c ih =>
    have hc := hw c (by simp)
    have hrest : Blank w := fun d hd => hw d (mem_append_left _ hd)
    rw [append_assoc, singleton_append, ih hrest, viewsAt_code (isCodeChar_of_isSpace hc.1) hc.2]
    simp [LineScan.push, LineScan.behind]

theorem isDocLine_blank (hw : Blank w) (line : List Char) : isDocLine (w ++ line) = isDocLine line := by
  rw [isDocLine, isDocLine, dropWhile_append_of_pos fun c hc => (hw c hc).1]

/-- A line whose first character is not `*` is scanned. -/
theorem viewsUnder_blank (hw : Blank w) (h : isDocLine (cutLine text).1 = false) :
    viewsUnder g freshSpanState (w ++ text) = viewsAt g (.behind w) text := by
  rw [viewsUnder_fresh, viewsAt_blank hw]
  rw [cutLine_append hw.newline_not_mem, isDocLine_blank hw, h]

theorem isDocLine_cutLine {cs : List Char} (hspace : isSpace c = false) :
    isDocLine (cutLine (c :: cs)).1 = (c == '*') := by
  have hline : c ≠ '\n' := by
    rintro rfl
    cases hspace
  rw [cutLine_cons hline, isDocLine, dropWhile_cons_of_neg (by simp [hspace])]
  simp

/-! ## Contents do not show -/

theorem WellFormed.head {t : Token} (h : WellFormed prev (t :: ts)) :
    t.Valid := by
  cases t <;> exact h.1

theorem WellFormed.tail {prev : Option Char} {t : Token} {ts : List Token} (h : WellFormed prev (t :: ts)) :
    WellFormed t.last ts := by
  cases t with
  | line hash content => exact h.2.2.2
  | _ => exact h.2

/-- What starts with a line break, or is empty, may stand behind any character. -/
theorem WellFormed.any {prev' : Option Char} (h : WellFormed prev ts)
    (hts : ts = [] ∨ ts.head? = some (.code '\n')) : WellFormed prev' ts := by
  rcases hts with rfl | hts
  · trivial
  · obtain ⟨rest, rfl⟩ := List.head?_eq_some_iff.mp hts
    exact h

theorem head_fileText (hts : ts = [] ∨ ts.head? = some (.code '\n')) :
    fileText ts = [] ∨ (fileText ts).head? = some '\n' := by
  rcases hts with rfl | hts
  · exact .inl rfl
  · obtain ⟨rest, rfl⟩ := List.head?_eq_some_iff.mp hts
    exact .inr rfl

/-- A token that leaks nothing on a line that is skipped has no line break, or is one. -/
theorem newline_not_mem_text {t : Token} (hvalid : t.Valid) (hleak : Mode.leaks .skipped t = false)
    (hcode : t ≠ .code '\n') : '\n' ∉ t.text := by
  cases t with
  | code c => simpa [Token.text, eq_comm] using fun h => hcode (by rw [h])
  | string quote content =>
    have hline := (findClosingQuote_append hvalid.1 hvalid.2 []).2
    have hquote : quote ≠ '\n' := by
      rcases hvalid.1 with rfl | rfl <;> decide
    simp [Token.text, hline, Ne.symm hquote]
  | line hash content =>
    have hline : '\n' ∉ content := hvalid
    cases hash <;> simp [Token.text, hline]
  | block content =>
    have hline : '\n' ∉ content := by simpa [Mode.leaks] using hleak
    simp [Token.text, hline]
  | template content =>
    have hline : '\n' ∉ content := by simpa [Mode.leaks] using hleak
    simp [Token.text, hline, backtick]

/-! ## Places -/

/-- A place in a file that is at no span: in a line that is scanned, behind the white space a line starts with, or in a
line that is skipped. -/
inductive Place where
  | scanned (s : LineScan)
  | start (w : List Char)
  | skipped

namespace Place

variable (g) in
/-- The views from the line of the place on, for the text behind it. -/
def views : Place → List Char → List LineCodeView
  | scanned s, text => viewsAt g s text
  | start w, text => viewsUnder g freshSpanState (w ++ text)
  | skipped, text => skippedViews g text

def mode : Place → Mode
  | scanned _ => .code
  | start _ => .start
  | skipped => .skipped

/-- The code before the place has no slash, and nothing but white space starts a line. -/
def Sound : Place → Prop
  | scanned s => '/' ∉ s.raw ++ s.run
  | start w => Blank w
  | skipped => True

/-- The character before the place on its line, where it matters. -/
def Behind (prev : Option Char) : Place → Prop
  | scanned s => s.prev = prev
  | start w => w.getLast? = prev
  | skipped => True

variable (g) in
/-- What a line that is scanned goes on with behind a token: the views it completes, and the next place. -/
def scan (s : LineScan) : Token → List LineCodeView × Place
  | .code c => if c = '\n' then ([s.view g], start []) else ([], scanned (s.push c))
  | .string quote _ => ([], scanned (s.closeText g quote))
  | .line _ _ => ([], scanned s)
  | .block content =>
    if content.count '\n' = 0 then ([], scanned (s.closeComment g))
    else (s.view g :: List.replicate (content.count '\n' - 1) EMPTY_LINE_VIEW, scanned (.start (some '/')))
  | .template content =>
    if content.count '\n' = 0 then ([], scanned (s.closeText g backtick))
    else ((s.flush g).space.view g :: List.replicate (content.count '\n' - 1) EMPTY_LINE_VIEW,
      scanned (.start (some backtick)))

variable (g) in
/-- A token, for a place in which it does not leak. -/
def step : Place → Token → List LineCodeView × Place
  | scanned s, t => scan g s t
  | start w, .code c =>
    if c = '\n' then ([(LineScan.behind w).view g], start [])
    else if isSpace c then ([], start (w ++ [c]))
    else if c = '*' then ([], skipped)
    else ([], scanned ((LineScan.behind w).push c))
  | start w, t => scan g (.behind w) t
  | skipped, .code c => if c = '\n' then ([EMPTY_LINE_VIEW], start []) else ([], skipped)
  | skipped, _ => ([], skipped)

variable {p : Place} {t t' : Token}

/-- The content of a span does not show in a step. -/
theorem step_same (h : t.Same t') : p.step g t = p.step g t' := by
  have hscan (s : LineScan) : scan g s t = scan g s t' := by
    cases t <;> cases t' <;> first | exact absurd h id | rfl | skip
    case code.code => rw [show _ = _ from h]
    case string.string => rw [scan, scan, show _ = _ from h]
    case block.block => rw [scan, scan, show List.count _ _ = List.count _ _ from h]
    case template.template => rw [scan, scan, show List.count _ _ = List.count _ _ from h]
  cases p with
  | scanned s => exact hscan s
  | start w =>
    cases t <;> cases t' <;> first | exact absurd h id | exact hscan _ | skip
    rw [show _ = _ from h]
  | skipped =>
    cases t <;> cases t' <;> first | exact absurd h id | rfl | skip
    rw [show _ = _ from h]

theorem mode_scan (s : LineScan) : (scan g s t).2.mode = Mode.next .code t := by
  cases t with
  | code c =>
    simp only [scan, Mode.next]
    split <;> rfl
  | string | line => rfl
  | block content | template content =>
    simp only [scan]
    split <;> rfl

theorem mode_step : (p.step g t).2.mode = p.mode.next t := by
  cases p with
  | scanned s => exact mode_scan s
  | start w =>
    cases t with
    | code c =>
      change _ = Mode.next .start (.code c)
      simp only [step, Mode.next]
      split
      · rfl
      split
      · rfl
      split <;> rfl
    | _ => exact mode_scan _
  | skipped =>
    cases t with
    | code c =>
      change _ = Mode.next .skipped (.code c)
      simp only [step, Mode.next]
      split <;> rfl
    | _ => rfl

variable {s : LineScan} {rest : List Token} {prev : Option Char}

theorem sound_scan (h : '/' ∉ s.raw ++ s.run) (ht : t.Valid) : (scan g s t).2.Sound := by
  have hcloseText (c : Char) : '/' ∉ (s.closeText g c).raw ++ (s.closeText g c).run := by
    simpa [LineScan.closeText, LineScan.space, LineScan.flush] using h
  have hstart (c : Char) : '/' ∉ (LineScan.start (some c)).raw ++ (LineScan.start (some c)).run := by
    simp [LineScan.start]
  cases t with
  | code c =>
    rw [scan]
    split
    · exact fun _ hc => absurd hc not_mem_nil
    · have hne : c ≠ '/' := by
        rintro rfl
        cases ht
      simpa [Sound, LineScan.push, Ne.symm hne] using h
  | string quote content => exact hcloseText quote
  | line => exact h
  | block content =>
    rw [scan]
    split
    · simpa [Sound, LineScan.closeComment, LineScan.flush] using h
    · exact hstart '/'
  | template content =>
    rw [scan]
    split
    · exact hcloseText backtick
    · exact hstart backtick

theorem noSlash_behind (hw : Blank w) : '/' ∉ (LineScan.behind w).raw ++ (LineScan.behind w).run := fun hmem =>
  absurd (hw _ hmem).1 (by decide)

theorem sound_step (h : p.Sound) (ht : t.Valid) : (p.step g t).2.Sound := by
  have hempty : Blank [] := fun _ hc => absurd hc not_mem_nil
  cases p with
  | scanned s => exact sound_scan h ht
  | start w =>
    have hbehind := noSlash_behind h
    cases t with
    | code c =>
      simp only [step]
      split
      · exact hempty
      next hline =>
      split
      · next hspace => exact Blank.append h hspace hline
      split
      · trivial
      · have hpush := sound_scan (g := g) hbehind ht
        rw [scan, if_neg hline] at hpush
        exact hpush
    | _ => exact sound_scan hbehind ht
  | skipped =>
    cases t with
    | code c =>
      simp only [step]
      split
      · exact hempty
      · trivial
    | _ => trivial

theorem behind_scan (hline : ∀ hash content, t ≠ .line hash content) :
    (scan g s t).2.Behind t.last := by
  cases t with
  | code c =>
    simp only [scan, Token.last]
    split <;> rfl
  | string quote content => rfl
  | line hash content => exact absurd rfl (hline hash content)
  | block content | template content =>
    simp only [scan]
    split <;> rfl

theorem behind_step (hline : ∀ hash content, t ≠ .line hash content) : (p.step g t).2.Behind t.last := by
  cases p with
  | scanned s => exact behind_scan hline
  | start w =>
    cases t with
    | code c =>
      simp only [step, Token.last]
      split
      · rfl
      split
      · exact List.getLast?_concat
      split
      · trivial
      · rfl
    | line hash content => exact absurd rfl (hline hash content)
    | _ => exact behind_scan hline
  | skipped =>
    cases t with
    | code c =>
      simp only [step, Token.last]
      split
      · rfl
      · trivial
    | _ => trivial

/-- A line that is scanned, one token further. -/
theorem views_scan (h : '/' ∉ s.raw ++ s.run) (ht : t.Valid)
    (hnext : ∀ hash content, t = .line hash content →
      (hash = true → s.prev.all isSpace = true) ∧ (rest = [] ∨ rest.head? = some (.code '\n'))) :
    viewsAt g s (t.text ++ fileText rest) = (scan g s t).1 ++ (scan g s t).2.views g (fileText rest) := by
  cases t with
  | code c =>
    rw [Token.text, singleton_append, scan]
    split
    · next hline =>
      subst hline
      exact viewsAt_newline
    · next hline => exact viewsAt_code ht hline
  | string quote content =>
    have hshape : (Token.string quote content).text ++ fileText rest = quote :: (content ++ quote :: fileText rest) := by
      simp [Token.text]
    rw [hshape, viewsAt_string ht.1 ht.2]
    rfl
  | line hash content =>
    obtain ⟨hprev, hrest⟩ := hnext hash content rfl
    cases hash with
    | false => exact viewsAt_slashes ht (head_fileText hrest)
    | true => exact viewsAt_hash (hprev rfl) ht (head_fileText hrest)
  | block content =>
    have hshape : (Token.block content).text ++ fileText rest = '/' :: '*' :: (content ++ '*' :: '/' :: fileText rest) := by
      simp [Token.text]
    rw [hshape, viewsAt_openComment, openComment_append ht, scan]
    split <;> rfl
  | template content =>
    have hshape : (Token.template content).text ++ fileText rest = backtick :: (content ++ backtick :: fileText rest) := by
      simp [Token.text]
    rw [hshape, viewsAt_openTemplate h, openTemplate_append ht, scan]
    split <;> rfl

/-- A token that starts with no white space. -/
theorem exists_head (ht : t.Valid) (h : ∀ c, t = .code c → isSpace c = false) :
    ∃ c cs, isSpace c = false ∧ t.text = c :: cs ∧ (c = '*' → t = .code '*') := by
  cases t with
  | code c => exact ⟨c, [], h c rfl, rfl, fun hc => by rw [hc]⟩
  | string quote content =>
    have hne : isSpace quote = false ∧ quote ≠ '*' := by rcases ht.1 with rfl | rfl <;> decide
    exact ⟨quote, _, hne.1, rfl, fun hc => absurd hc hne.2⟩
  | line hash content =>
    cases hash with
    | false => exact ⟨'/', _, by decide, rfl, fun hc => absurd hc (by decide)⟩
    | true => exact ⟨'#', _, by decide, rfl, fun hc => absurd hc (by decide)⟩
  | block content => exact ⟨'/', _, by decide, rfl, fun hc => absurd hc (by decide)⟩
  | template content => exact ⟨backtick, _, by decide, rfl, fun hc => absurd hc (by decide)⟩

/-- The start of a line, one token further. -/
theorem views_start (hw : Blank w) (ht : t.Valid)
    (hnext : ∀ hash content, t = .line hash content →
      (hash = true → w.getLast?.all isSpace = true) ∧ (rest = [] ∨ rest.head? = some (.code '\n'))) :
    viewsUnder g freshSpanState (w ++ (t.text ++ fileText rest)) =
      ((start w).step g t).1 ++ ((start w).step g t).2.views g (fileText rest) := by
  by_cases hspace : ∃ c, t = .code c ∧ isSpace c = true
  · obtain ⟨c, rfl, hspace⟩ := hspace
    rw [Token.text, singleton_append, step]
    by_cases hline : c = '\n'
    · subst hline
      have hdoc : isDocLine (cutLine ('\n' :: fileText rest)).1 = false := by
        rw [cutLine_newline]
        rfl
      rw [viewsUnder_blank hw hdoc, viewsAt_newline]
      rfl
    · rw [if_neg hline, if_pos hspace]
      simp [views]
  · have hchar : ∀ c, t = .code c → isSpace c = false := fun c hc =>
      Bool.eq_false_iff.mpr fun h => hspace ⟨c, hc, h⟩
    obtain ⟨c, cs, hc, htext, hstar⟩ := exists_head ht hchar
    have hdoc : isDocLine (cutLine (c :: (cs ++ fileText rest))).1 = (c == '*') := isDocLine_cutLine hc
    by_cases hstarred : c = '*'
    · obtain rfl := hstar hstarred
      rw [Token.text, singleton_append, step, if_neg (by decide), if_neg (by decide), if_pos rfl, viewsUnder_doc]
      · rw [skippedViews_append hw.newline_not_mem]
        exact skippedViews_append (a := ['*']) (by decide)
      · rw [cutLine_append hw.newline_not_mem, isDocLine_blank hw, isDocLine_cutLine (by decide)]
        rfl
    · have hfirst : isDocLine (cutLine (t.text ++ fileText rest)).1 = false := by
        rw [htext, cons_append, hdoc]
        simpa using hstarred
      have hstep : (start w).step g t = scan g (.behind w) t := by
        cases t <;> first | rfl | skip
        next d =>
          obtain ⟨rfl, rfl⟩ := List.cons.inj htext
          have hline : d ≠ '\n' := by
            rintro rfl
            cases hc
          simp only [step, scan, hline, hc, hstarred, Bool.false_eq_true, if_false]
      rw [viewsUnder_blank hw hfirst, hstep]
      exact views_scan (noSlash_behind hw) ht hnext

/-- A line that is skipped, one token further. -/
theorem views_skipped {rest : List Char} (ht : t.Valid) (hleak : Mode.leaks .skipped t = false) :
    skippedViews g (t.text ++ rest) = (skipped.step g t).1 ++ (skipped.step g t).2.views g rest := by
  by_cases hline : t = .code '\n'
  · subst hline
    exact skippedViews_newline
  · rw [skippedViews_append (newline_not_mem_text ht hleak hline)]
    cases t with
    | code c =>
      have hne : c ≠ '\n' := fun hc => hline (by rw [hc])
      rw [step, if_neg hne]
      rfl
    | _ => rfl

/-- One token further, where the token does not leak. -/
theorem views_step (hsound : p.Sound) (hprev : p.Behind prev)
    (h : WellFormed prev (t :: rest)) (hleak : p.mode.leaks t = false) :
    p.views g (fileText (t :: rest)) = (p.step g t).1 ++ (p.step g t).2.views g (fileText rest) := by
  have ht := h.head
  have hnext : ∀ hash content, t = .line hash content →
      (hash = true → prev.all isSpace = true) ∧ (rest = [] ∨ rest.head? = some (.code '\n')) := by
    rintro hash content rfl
    exact ⟨h.2.1, h.2.2.1⟩
  cases p with
  | scanned s =>
    obtain rfl : s.prev = prev := hprev
    exact views_scan hsound ht hnext
  | start w =>
    obtain rfl : w.getLast? = prev := hprev
    exact views_start hsound ht hnext
  | skipped => exact views_skipped ht hleak

/-- A well-formed rest is one behind the next place. -/
theorem wellFormed_step (h : WellFormed prev (t :: rest)) :
    ∃ prev', (p.step g t).2.Behind prev' ∧ WellFormed prev' rest ∧
      (prev' = t.last ∨ rest = [] ∨ rest.head? = some (.code '\n')) := by
  by_cases hline : ∃ hash content, t = .line hash content
  · obtain ⟨hash, content, rfl⟩ := hline
    refine ⟨match (p.step g (.line hash content)).2 with
      | scanned s => s.prev
      | start w => w.getLast?
      | skipped => none, ?_, h.2.2.2.any h.2.2.1, .inr h.2.2.1⟩
    cases (p.step g (.line hash content)).2 <;> trivial
  · exact ⟨t.last, behind_step fun hash content heq => hline ⟨hash, content, heq⟩, h.tail, .inl rfl⟩

end Place

end PrReviewer.Enforcement
