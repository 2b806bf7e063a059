import PrReviewer.Enforcement.CodeTokens

/-!
# Comment and string text is no enforcement, where the scan sees the span

In a clean file the predicate signals do not depend on what comments, strings and templates say; in a file that is not
clean, they do (`spans_inert_iff`). A generic argument list has a `<`, so no line becomes a predicate by blanking it
(`signals_of_blanked`).
-/

namespace PrReviewer.Enforcement

open Js List

variable {g : Bool} {ts ts' : List Token} {p : Place} {t t' : Token}

/-! ## Clean files -/

theorem Token.Same.refl (t : Token) : t.Same t := by
  cases t <;> rfl

theorem same_refl (ts : List Token) : List.Forall₂ Token.Same ts ts := by
  induction ts with
  | nil => exact .nil
  | cons t ts ih => exact .cons (.refl t) ih

theorem leaks_same (m : Mode) (h : t.Same t') : m.leaks t' = m.leaks t := by
  have hcontains {content content' : List Char} (hcount : content.count '\n' = content'.count '\n') :
      content'.contains '\n' = content.contains '\n' := by
    rw [Bool.eq_iff_iff, contains_iff_mem, contains_iff_mem, ← count_pos_iff, ← count_pos_iff, hcount]
  cases t <;> cases t' <;> first | exact absurd h id | (cases m <;> rfl) | skip
  all_goals
    cases m <;> first | rfl | skip
    exact hcontains h

/-- The contents of the spans of a clean rest of a file do not show in the views. -/
theorem views_congr (h : List.Forall₂ Token.Same ts ts') {prev prev' : Option Char} (hsound : p.Sound)
    (hprev : p.Behind prev) (hprev' : p.Behind prev') (hts : WellFormed prev ts) (hts' : WellFormed prev' ts')
    (hclean : CleanFrom p.mode ts) : p.views g (fileText ts') = p.views g (fileText ts) := by
  induction h generalizing p prev prev' with
  | nil => rfl
  | cons hsame _ ih =>
    have hleak' := leaks_same p.mode hsame
    rw [hclean.1] at hleak'
    rw [Place.views_step hsound hprev hts hclean.1, Place.views_step hsound hprev' hts' hleak', ← Place.step_same hsame]
    obtain ⟨next, hnext, hrest, -⟩ := Place.wellFormed_step (g := g) (p := p) hts
    obtain ⟨next', hnext', hrest', -⟩ := Place.wellFormed_step (g := g) (p := p) hts'
    rw [← Place.step_same hsame] at hnext'
    rw [ih (Place.sound_step hsound hts.head) hnext hnext' hrest hrest' (by rw [Place.mode_step]; exact hclean.2)]

/-! ## Other files -/

/-- A content with as many line breaks, whose second line starts with `line`. -/
def contentWith (line : List Char) (breaks : Nat) : List Char := '\n' :: (line ++ List.replicate (breaks - 1) '\n')

theorem count_contentWith {line : List Char} (h : '\n' ∉ line) {breaks : Nat} (hpos : 0 < breaks) :
    (contentWith line breaks).count '\n' = breaks := by
  rw [contentWith, count_cons_self, count_append, count_eq_zero_of_not_mem h, count_replicate_self]
  omega

variable {content opener code : List Char} {a : List Token} {prev : Option Char}

theorem blockBody_of_not_mem (h : '*' ∉ content) : blockBody content = true := by
  induction content with
  | nil => rfl
  | cons c cs ih =>
    rw [mem_cons, not_or] at h
    simp [blockBody, ih h.2, Ne.symm h.1]

theorem templateBody_of_not_mem (hslash : '\\' ∉ content) (hclose : backtick ∉ content)
    (hdollar : '$' ∉ content) : templateBody content = true := by
  induction content with
  | nil => rfl
  | cons c cs ih =>
    rw [mem_cons, not_or] at hslash hclose hdollar
    rw [templateBody.eq_4 _ _ (fun heq => absurd heq (Ne.symm hslash.1)) (fun _ _ heq => absurd heq (Ne.symm hslash.1)),
      ih hslash.2 hclose.2 hdollar.2]
    simp [Ne.symm hclose.1, Ne.symm hdollar.1]

/-- A guard before a comment. -/
def guarded : List Char := ['i', 'f', ' ', '/', '/']

/-- A comment. -/
def unguarded : List Char := ['/', '/']

theorem viewsUnder_guarded (text : List Char) : ∃ vs, viewsUnder true freshSpanState (guarded ++ text) =
    ((((LineScan.start none).push 'i').push 'f').push ' ').view true :: vs := by
  have hdoc : isDocLine (cutLine (guarded ++ text)).1 = false := by
    rw [guarded, cons_append]
    exact isDocLine_cutLine (by decide)
  rw [viewsUnder_fresh hdoc, guarded, cons_append, cons_append, cons_append, cons_append,
    cons_append, nil_append, viewsAt_code (by decide) (by decide), viewsAt_code (by decide) (by decide),
    viewsAt_code (by decide) (by decide), viewsAt, cutLine_cons (by decide), cutLine_cons (by decide), scanLine_slashes]
  exact ⟨_, rfl⟩

theorem viewsUnder_unguarded (text : List Char) :
    ∃ vs, viewsUnder true freshSpanState (unguarded ++ text) = (LineScan.start none).view true :: vs := by
  have hdoc : isDocLine (cutLine (unguarded ++ text)).1 = false := by
    rw [unguarded, cons_append]
    exact isDocLine_cutLine (by decide)
  rw [viewsUnder_fresh hdoc, unguarded, cons_append, cons_append, nil_append, viewsAt,
    cutLine_cons (by decide), cutLine_cons (by decide), scanLine_slashes]
  exact ⟨_, rfl⟩

/-- The signals of the rest of a file from a place on. -/
def Place.signals (p : Place) (ts : List Token) : List Bool := (p.views true (fileText ts)).map predicateSignalIn

/-- What follows the line break of a content on a line that is skipped is read as code. -/
theorem skippedViews_contentWith (line : List Char) (h : '\n' ∉ opener) (breaks : Nat)
    (rest : List Char) :
    ∃ text, skippedViews g (opener ++ (contentWith line breaks ++ rest)) =
      EMPTY_LINE_VIEW :: viewsUnder g freshSpanState (line ++ text) := by
  refine ⟨List.replicate (breaks - 1) '\n' ++ rest, ?_⟩
  rw [skippedViews_append h, contentWith, cons_append, skippedViews_newline, append_assoc]

theorem signals_ne (h : '\n' ∉ opener) (breaks : Nat) (rest rest' : List Char) :
    (skippedViews true (opener ++ (contentWith guarded breaks ++ rest))).map predicateSignalIn ≠
      (skippedViews true (opener ++ (contentWith unguarded breaks ++ rest'))).map predicateSignalIn := by
  obtain ⟨text, htext⟩ := skippedViews_contentWith (g := true) guarded h breaks rest
  obtain ⟨text', htext'⟩ := skippedViews_contentWith (g := true) unguarded h breaks rest'
  obtain ⟨vs, hviews⟩ := viewsUnder_guarded text
  obtain ⟨vs', hviews'⟩ := viewsUnder_unguarded text'
  have hsignal : predicateSignalIn (((((LineScan.start none).push 'i').push 'f').push ' ').view true) = true := by
    decide +kernel
  have hsignal' : predicateSignalIn ((LineScan.start none).view true) = false := by
    decide +kernel
  rw [htext, htext', hviews, hviews', map_cons, map_cons, map_cons, map_cons, hsignal, hsignal']
  simp

/-- A token that leaks can be replaced by two whose second lines are read differently. -/
theorem exists_leaking (hleak : Mode.leaks .skipped t = true) (rest : List Char) :
    ∃ a b, t.Same a ∧ t.Same b ∧ a.Valid ∧ b.Valid ∧ a.last = t.last ∧ b.last = t.last ∧
      (∀ hash content, t ≠ .line hash content) ∧
      (skippedViews true (a.text ++ rest)).map predicateSignalIn ≠
        (skippedViews true (b.text ++ rest)).map predicateSignalIn := by
  have hguarded : '\n' ∉ guarded := by decide
  have hunguarded : '\n' ∉ unguarded := by decide
  have hplain {line : List Char} {c : Char} {breaks : Nat} (hline : c ∉ line) (hc : c ≠ '\n') :
      c ∉ contentWith line breaks := by
    simp [contentWith, hline, hc]
  cases t with
  | code | string | line => cases hleak
  | block content =>
    have hpos : 0 < content.count '\n' := count_pos_iff.mpr (contains_iff_mem.mp hleak)
    refine ⟨.block (contentWith guarded (content.count '\n')), .block (contentWith unguarded (content.count '\n')),
      (count_contentWith hguarded hpos).symm, (count_contentWith hunguarded hpos).symm,
      blockBody_of_not_mem (hplain (by decide) (by decide)), blockBody_of_not_mem (hplain (by decide) (by decide)),
      rfl, rfl, fun _ _ => Token.noConfusion, ?_⟩
    have hshape (body : List Char) :
        (Token.block body).text ++ rest = ['/', '*'] ++ (body ++ (['*', '/'] ++ rest)) := by
      simp [Token.text]
    rw [hshape, hshape]
    exact signals_ne (by decide) _ _ _
  | template content =>
    have hpos : 0 < content.count '\n' := count_pos_iff.mpr (contains_iff_mem.mp hleak)
    have hbody {line : List Char} (h : '\\' ∉ line) (h' : backtick ∉ line) (h'' : '$' ∉ line) :
        templateBody (contentWith line (content.count '\n')) = true :=
      templateBody_of_not_mem (hplain h (by decide)) (hplain h' (by decide)) (hplain h'' (by decide))
    refine ⟨.template (contentWith guarded (content.count '\n')),
      .template (contentWith unguarded (content.count '\n')), (count_contentWith hguarded hpos).symm,
      (count_contentWith hunguarded hpos).symm, hbody (by decide) (by decide) (by decide),
      hbody (by decide) (by decide) (by decide), rfl, rfl, fun _ _ => Token.noConfusion, ?_⟩
    have hshape (body : List Char) :
        (Token.template body).text ++ rest = [backtick] ++ (body ++ ([backtick] ++ rest)) := by
      simp [Token.text]
    rw [hshape, hshape]
    exact signals_ne (by decide) _ _ _

theorem forall₂_nil_or_newline {ts : List Token} (h : List.Forall₂ Token.Same ts a)
    (hts : ts = [] ∨ ts.head? = some (.code '\n')) : a = [] ∨ a.head? = some (.code '\n') := by
  cases h with
  | nil => exact .inl rfl
  | @cons t t' _ _ hsame _ =>
    obtain rfl : t = .code '\n' := by simpa using hts
    cases t' <;> first | exact absurd hsame id | skip
    rw [← show '\n' = _ from hsame]
    exact .inr rfl

/-- A token may be followed by a rest that is the same. -/
theorem WellFormed.cons_same {prev' : Option Char} (h : WellFormed prev (t :: ts))
    (hsame : List.Forall₂ Token.Same ts a) (ha : WellFormed prev' a)
    (hprev' : prev' = t.last ∨ ts = [] ∨ ts.head? = some (.code '\n')) : WellFormed prev (t :: a) := by
  have hrest : WellFormed t.last a := by
    rcases hprev' with rfl | hts
    · exact ha
    · exact ha.any (forall₂_nil_or_newline hsame hts)
  cases t with
  | line hash content => exact ⟨h.1, h.2.1, forall₂_nil_or_newline hsame h.2.2.1, hrest⟩
  | _ => exact ⟨h.1, hrest⟩

/-- In a rest of a file that is not clean, a content shows in the signals. -/
theorem exists_changed (hsound : p.Sound) (hprev : p.Behind prev) (hts : WellFormed prev ts)
    (hclean : ¬CleanFrom p.mode ts) :
    ∃ a b, List.Forall₂ Token.Same ts a ∧ List.Forall₂ Token.Same ts b ∧ WellFormed prev a ∧ WellFormed prev b ∧
      p.signals a ≠ p.signals b := by
  induction ts generalizing p prev with
  | nil => exact absurd trivial hclean
  | cons t ts ih =>
    by_cases hleak : p.mode.leaks t = true
    · obtain rfl : p = .skipped := by
        cases p with
        | skipped => rfl
        | _ => cases hleak
      obtain ⟨a, b, hsameA, hsameB, ha, hb, hlastA, hlastB, hline, hne⟩ := exists_leaking hleak (fileText ts)
      have hfollow {u : Token} (hu : u.Valid) (hlast : u.last = t.last) (hsame : t.Same u) :
          WellFormed prev (u :: ts) := by
        have hrest := hts.tail
        rw [← hlast] at hrest
        cases u with
        | line hash content =>
          cases t <;> first | exact absurd hsame id | skip
          exact absurd rfl (hline _ _)
        | _ => exact ⟨hu, hrest⟩
      exact ⟨a :: ts, b :: ts, .cons hsameA (same_refl ts), .cons hsameB (same_refl ts), hfollow ha hlastA hsameA,
        hfollow hb hlastB hsameB, hne⟩
    · have hnoLeak := Bool.eq_false_iff.mpr hleak
      obtain ⟨prev', hprev', hrest, hlast⟩ := Place.wellFormed_step (g := true) (p := p) hts
      have hrestClean : ¬CleanFrom (p.step true t).2.mode ts := by
        rw [Place.mode_step]
        exact fun h => hclean ⟨hnoLeak, h⟩
      obtain ⟨a, b, hsameA, hsameB, ha, hb, hne⟩ := ih (Place.sound_step hsound hts.head) hprev' hrest hrestClean
      have hfileA := hts.cons_same hsameA ha hlast
      have hfileB := hts.cons_same hsameB hb hlast
      refine ⟨t :: a, t :: b, .cons (.refl t) hsameA, .cons (.refl t) hsameB, hfileA, hfileB, ?_⟩
      rw [Place.signals, Place.signals, Place.views_step hsound hprev hfileA hnoLeak,
        Place.views_step hsound hprev hfileB hnoLeak, map_append, map_append, Ne, append_cancel_left_eq]
      exact hne

/-! ## Generic argument lists -/

theorem mem_blankArrows (h : '<' ∈ code) : '<' ∈ blankArrows code := by
  fun_induction blankArrows code with
  | case1 => exact h
  | case2 cs ih | case3 cs ih =>
    exact mem_cons_of_mem _ (ih (by simpa using h))
  | case4 c cs _ _ ih =>
    rcases mem_cons.mp h with rfl | h
    · exact mem_cons_self
    · exact mem_cons_of_mem _ (ih h)

theorem mem_blankMarkers (h : '<' ∈ code) : '<' ∈ blankMarkers code := by
  fun_induction blankMarkers code with
  | case1 => exact h
  | case2 cs ih | case3 cs ih | case5 cs _ ih =>
    exact mem_cons_of_mem _ (ih (by simpa using h))
  | case4 cs _ ih =>
    exact mem_cons_of_mem _ (mem_cons_of_mem _ (ih (by simpa using h)))
  | case6 c cs _ _ _ ih =>
    rcases mem_cons.mp h with rfl | h
    · exact mem_cons_self
    · exact mem_cons_of_mem _ (ih h)

theorem blankGenericsFrom_or (code : List Char) (prev : Option Char) :
    blankGenericsFrom 0 prev code = code ∨ '<' ∈ code := by
  induction code generalizing prev with
  | nil => exact .inl rfl
  | cons c cs ih =>
    by_cases hc : c = '<'
    · exact .inr (hc ▸ mem_cons_self)
    · rw [blankGenericsFrom, if_neg (lt_irrefl 0), if_neg fun h => hc h.1]
      rcases ih (some c) with h | h
      · exact .inl (by rw [h])
      · exact .inr (mem_cons_of_mem _ h)

/-- The blanked code is that of the scan that keeps generic argument lists, or that scan has a `<`. -/
def Kept (blanked kept : List Char) : Prop := blanked = kept ∨ '<' ∈ kept

theorem Kept.append {a a' b b' : List Char} (h : Kept a a') (h' : Kept b b') : Kept (a ++ b) (a' ++ b') := by
  rcases h with rfl | h
  · rcases h' with rfl | h'
    · exact .inl rfl
    · exact .inr (mem_append_right _ h')
  · exact .inr (mem_append_left _ h)

theorem kept_run (run : List Char) :
    Kept (blankNonPredicateOperators (blankGenericArgumentLists run)) (blankNonPredicateOperators run) := by
  rcases blankGenericsFrom_or run none with h | h
  · exact .inl (by rw [blankGenericArgumentLists, h])
  · exact .inr (mem_blankMarkers (mem_blankArrows h))

/-- Two scans of a line, the second without the blanking of generic argument lists. -/
structure LineScan.Twin (s s' : LineScan) : Prop where
  raw : s.raw = s'.raw
  run : s.run = s'.run
  prev : s.prev = s'.prev
  blanked : Kept s.blanked s'.blanked

section

variable {s s' : LineScan}

theorem LineScan.Twin.flush (h : s.Twin s') : (s.flush true).Twin (s'.flush false) := by
  refine ⟨by simp [LineScan.flush, h.raw, h.run], rfl, h.prev, h.blanked.append ?_⟩
  rw [h.run]
  exact kept_run s'.run

theorem LineScan.Twin.space (h : s.Twin s') : s.space.Twin s'.space :=
  ⟨by simp [LineScan.space, h.raw], h.run, h.prev, h.blanked.append (.inl rfl)⟩

theorem LineScan.Twin.behind (h : s.Twin s') (c : Char) :
    LineScan.Twin { s with prev := some c } { s' with prev := some c } := ⟨h.raw, h.run, rfl, h.blanked⟩

theorem LineScan.Twin.push (h : s.Twin s') (c : Char) :
    LineScan.Twin { s with run := s.run ++ [c], prev := some c } { s' with run := s'.run ++ [c], prev := some c } :=
  ⟨h.raw, by rw [h.run], rfl, h.blanked⟩

/-- Two views of a line, the second without the blanking of generic argument lists. -/
structure LineCodeView.Twin (v v' : LineCodeView) : Prop where
  raw : v.raw = v'.raw
  blanked : Kept v.blanked v'.blanked

theorem LineScan.Twin.view (h : s.Twin s') : (s.view true).Twin (s'.view false) := ⟨h.flush.raw, h.flush.blanked⟩

/-- The two scans see the same spans. -/
theorem twin_scanCode (fuel : Nat) {s s' : LineScan} (h : s.Twin s') (state : CodeSpanState) (line : List Char) :
    (scanCode true fuel s state line).1.Twin (scanCode false fuel s' state line).1 ∧
      (scanCode true fuel s state line).2 = (scanCode false fuel s' state line).2 := by
  induction fuel generalizing s s' state line with
  | zero => exact ⟨h.view, rfl⟩
  | succ fuel ih =>
    cases line with
    | nil => exact ⟨h.view, rfl⟩
    | cons c cs =>
      rw [scanCode, scanCode, ← h.prev]
      split
      · exact ⟨h.view, rfl⟩
      split
      · split
        · exact ⟨h.view, rfl⟩
        · exact ih (h.flush.behind '/') _ _
      split
      · exact ⟨h.view, rfl⟩
      split
      · split
        · exact ⟨h.flush.space.view, rfl⟩
        · exact ih (h.flush.space.behind c) _ _
      split
      · split
        · exact ⟨h.flush.space.view, by rw [h.raw, h.run]⟩
        · exact ih (h.flush.space.behind backtick) _ _
      · exact ih (h.push c) _ _

end

theorem twin_scanCodeView (state : CodeSpanState) (line : List Char) :
    (scanCodeView true state line).1.Twin (scanCodeView false state line).1 ∧
      (scanCodeView true state line).2 = (scanCodeView false state line).2 := by
  have hempty : EMPTY_LINE_VIEW.Twin EMPTY_LINE_VIEW := ⟨rfl, .inl rfl⟩
  have hstart (prev : Option Char) : (LineScan.start prev).Twin (.start prev) := ⟨rfl, rfl, rfl, .inl rfl⟩
  rw [scanCodeView, scanCodeView]
  split
  · split
    · exact ⟨hempty, rfl⟩
    · exact twin_scanCode _ (hstart _) _ _
  split
  · split
    · exact ⟨hempty, rfl⟩
    · exact twin_scanCode _ (hstart _) _ _
  split
  · exact ⟨hempty, rfl⟩
  · exact twin_scanCode _ (hstart _) _ _

theorem twin_viewsFrom (state : CodeSpanState) (lines : List (List Char)) :
    List.Forall₂ LineCodeView.Twin (viewsFrom true state lines) (viewsFrom false state lines) := by
  induction lines generalizing state with
  | nil => exact .nil
  | cons line lines ih =>
    obtain ⟨hview, hstate⟩ := twin_scanCodeView state line
    rw [viewsFrom, viewsFrom, ← hstate]
    exact .cons hview (ih _)

theorem testFrom_comparison (h : '<' ∈ code) (before : List Char) :
    COMPARISON_RE.testFrom before code = true := by
  induction code generalizing before with
  | nil => cases h
  | cons c cs ih =>
    rw [RegExp.testFrom, Bool.or_eq_true]
    rcases mem_cons.mp h with rfl | h
    · left
      simp only [COMPARISON_RE, RegExp.choice, RegExp.matchAt, RegExp.run, Option.isSome_map]
      simp
    · exact .inr (ih h _)

theorem signal_of_twin {v v' : LineCodeView} (h : v.Twin v') (hsignal : predicateSignalIn v = true) :
    predicateSignalIn v' = true := by
  rcases h.blanked with hblanked | hmem
  · have heq : v = v' := by
      cases v
      cases v'
      rw [LineCodeView.mk.injEq]
      exact ⟨h.raw, hblanked⟩
    rwa [← heq]
  · simp [predicateSignalIn, testFrom_comparison hmem]

/-- A line that is a predicate with generic argument lists blanked is one without that, too. -/
theorem signals_of_blanked (lines : List (List Char)) :
    List.Forall₂ (fun signal signal' => signal = true → signal' = true) (filePredicateSignal lines)
      (filePredicateSignalIgnoringGenericArgumentLists lines) := by
  rw [filePredicateSignal, filePredicateSignalIgnoringGenericArgumentLists, forall₂_map_left_iff,
    forall₂_map_right_iff]
  exact (twin_viewsFrom freshSpanState lines).imp fun _ _ => signal_of_twin

/-! ## Files -/

/-- The entries of `filePredicateSignal` for the lines of a file. -/
def fileSignals (ts : List Token) : List Bool := filePredicateSignal ((fileText ts).splitOn '\n')

theorem fileSignals_eq (ts : List Token) : fileSignals ts = (Place.start []).signals ts := by
  rw [fileSignals, filePredicateSignal, computeCodeViews_splitOn]
  rfl

/-- Contents of spans show in no entry, and blanking generic argument lists adds no predicate, exactly for clean files. -/
theorem spans_inert_iff (h : IsFile ts) :
    ((∀ ts', IsFile ts' → List.Forall₂ Token.Same ts ts' → fileSignals ts' = fileSignals ts) ∧
      ∀ lines, List.Forall₂ (fun signal signal' => signal = true → signal' = true) (filePredicateSignal lines)
        (filePredicateSignalIgnoringGenericArgumentLists lines)) ↔ Clean ts := by
  have hblank : (Place.start []).Sound := fun _ hc => absurd hc not_mem_nil
  constructor
  · rintro ⟨hsame, -⟩
    by_contra hclean
    obtain ⟨a, b, hsameA, hsameB, ha, hb, hne⟩ := exists_changed (p := .start []) hblank rfl h hclean
    rw [← fileSignals_eq, ← fileSignals_eq, hsame a ha hsameA, hsame b hb hsameB] at hne
    exact hne rfl
  · intro hclean
    refine ⟨fun ts' hts' hsame => ?_, signals_of_blanked⟩
    rw [fileSignals_eq, fileSignals_eq, Place.signals, Place.signals,
      views_congr hsame (p := .start []) hblank rfl rfl h hts' hclean]

/-- A file with a comment, a string and a template over two lines. -/
def sampleFile : List Token :=
  [.code 'x', .block "a > b\n".toList, .code ' ', .string '"' "if".toList, .template "\n".toList, .code '\n']

theorem spans_inert_iff_sample :
    ((∀ ts', IsFile ts' → List.Forall₂ Token.Same sampleFile ts' → fileSignals ts' = fileSignals sampleFile) ∧
      ∀ lines, List.Forall₂ (fun signal signal' => signal = true → signal' = true) (filePredicateSignal lines)
        (filePredicateSignalIgnoringGenericArgumentLists lines)) ↔ Clean sampleFile :=
  spans_inert_iff ⟨by decide, by decide, by decide, ⟨.inr rfl, by decide⟩, by decide, by decide, trivial⟩

/-- A template opened on a line that starts with `*` is read as code. -/
theorem content_of_starred_line_shows :
    IsFile [.code '*', .template "\nif".toList] ∧ IsFile [.code '*', .template "\n".toList] ∧
      List.Forall₂ Token.Same [.code '*', .template "\n".toList] [.code '*', .template "\nif".toList] ∧
      fileSignals [.code '*', .template "\n".toList] = [false, false] ∧
      fileSignals [.code '*', .template "\nif".toList] = [false, true] := by
  refine ⟨⟨by decide, by decide, trivial⟩, ⟨by decide, by decide, trivial⟩,
    .cons rfl (.cons rfl .nil), by decide +kernel, by decide +kernel⟩

end PrReviewer.Enforcement
