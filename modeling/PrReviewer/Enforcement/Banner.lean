import PrReviewer.Enforcement.Enforce
import PrReviewer.Js.Join

/-!
# The enforcement banner and its removal

`normalizeEnforcedReviewMarkdown` puts a banner with one bullet for each reason before the markdown, and
`reconcileEnforcedReviewMarkdown` takes off what `ENFORCED_BANNER_RE` matches: a heading and bullets of one line each.

`reconcile_iff`: the banner goes, all of it and nothing more, exactly when every line of a reason behind its first is a
bullet itself. A reason with any other line break leaves the banner, or a part of it.
-/

open Js Js.RegExp

namespace PrReviewer.Enforcement

/-! ## The pattern -/

/-- A bullet of one line. -/
def bulletText (x : List Char) : List Char := '-' :: ' ' :: (x ++ ['\n'])

def isNewline (c : Char) : Bool := c == '\n'

/-- Where a bullet ends. -/
def stepBullet (c : Cursor) : Option Cursor :=
  (stepText "- ".toList c).bind fun c => stepChar isNewline (span (· != '\n') c)

def bulletRe : RegExp := .concat [.literal "- ", .star (.char (· != '\n')), .char isNewline]

theorem deterministic_bullet : Deterministic bulletRe stepBullet := by
  refine deterministic_seq (deterministic_literal "- ") (deterministic_span fun x hx => ?_)
  simpa [isNewline] using hx

variable {c d : Cursor} {rest : List Char} {lines : List (List Char)} {a : ReviewArtifact}
  {text : String}

theorem stepBullet_append {x : List Char} (hx : '\n' ∉ x) (h : c.after = bulletText x ++ rest) :
    stepBullet c = some (c.move (bulletText x) rest) := by
  have htext : c.after = "- ".toList ++ (x ++ '\n' :: rest) := by
    rw [h, bulletText]
    simp
  rw [stepBullet, stepText_append htext, Option.bind_some, span, Cursor.after_move, takeWhile_ne_append hx,
    dropWhile_ne_append hx, stepChar, Cursor.after_move]
  dsimp only
  rw [if_pos (by decide : isNewline '\n' = true), Cursor.move_move, Cursor.move_move]
  rfl

theorem exists_of_stepBullet (h : stepBullet c = some d) :
    ∃ x rest, '\n' ∉ x ∧ c.after = bulletText x ++ rest ∧ d = c.move (bulletText x) rest := by
  obtain ⟨c', htext, hline⟩ := Option.bind_eq_some_iff.mp h
  obtain ⟨line, hafter, rfl⟩ := exists_of_stepText htext
  have hmem : '\n' ∈ line := by
    by_contra hno
    have hall : line.dropWhile (· != '\n') = [] := by
      rw [List.dropWhile_eq_nil_iff]
      intro y hy
      rw [bne_iff_ne]
      rintro rfl
      exact hno hy
    rw [span, Cursor.after_move, hall, stepChar, Cursor.after_move] at hline
    cases hline
  obtain ⟨x, rest, rfl, hx⟩ := List.eq_append_cons_of_mem hmem
  have hbullet : c.after = bulletText x ++ rest := by
    rw [hafter, bulletText]
    simp
  refine ⟨x, rest, hx, hbullet, ?_⟩
  rw [stepBullet_append hx hbullet] at h
  exact (Option.some.inj h).symm

theorem length_stepBullet (h : stepBullet c = some d) : d.after.length < c.after.length := by
  obtain ⟨x, rest, -, hafter, rfl⟩ := exists_of_stepBullet h
  rw [hafter, Cursor.after_move, bulletText, List.length_append, List.length_cons]
  omega

/-- Bullets up to something else. -/
theorem exhausts_bullets {xs : List (List Char)} (hxs : ∀ x ∈ xs, '\n' ∉ x) {c : Cursor}
    (h : c.after = xs.flatMap bulletText ++ '\n' :: rest) :
    ∃ d, Exhausts stepBullet c d ∧ d.after = '\n' :: rest := by
  induction xs generalizing c with
  | nil =>
    refine ⟨c, .stop ?_, h⟩
    rw [Option.eq_none_iff_forall_ne_some]
    intro d hd
    obtain ⟨x, rest', -, hafter, -⟩ := exists_of_stepBullet hd
    rw [h, bulletText] at hafter
    cases hafter
  | cons x xs ih =>
    rw [List.forall_mem_cons] at hxs
    rw [List.flatMap_cons, List.append_assoc] at h
    have hstep := stepBullet_append hxs.1 h
    obtain ⟨d, hd, hafter⟩ := ih hxs.2 (c.after_move _ _)
    exact ⟨d, .step hstep hd, hafter⟩

theorem exists_of_exhausts (h : Exhausts stepBullet c d) :
    ∃ xs : List (List Char), (∀ x ∈ xs, '\n' ∉ x) ∧ c.after = xs.flatMap bulletText ++ d.after := by
  induction h with
  | stop _ => exact ⟨[], List.forall_mem_nil _, rfl⟩
  | step hstep _ ih =>
    obtain ⟨xs, hxs, hafter⟩ := ih
    obtain ⟨x, rest, hx, hc, rfl⟩ := exists_of_stepBullet hstep
    refine ⟨x :: xs, List.forall_mem_cons.mpr ⟨hx, hxs⟩, ?_⟩
    rw [hc, List.flatMap_cons, List.append_assoc, ← hafter, Cursor.after_move]

/-- The bullets and the empty line behind them. -/
theorem run_bullets (h : Exhausts stepBullet c d) (k : Cursor → Option Cursor) :
    (RegExp.concat [.star bulletRe, .char isNewline]).run c k = (stepChar isNewline d).bind k := by
  change (star bulletRe).run c (fun c' => (seq (.char isNewline) .empty).run c' k) = _
  have hrest : ∀ c', (seq (.char isNewline) .empty).run c' k = (stepChar isNewline c').bind k := by
    intro c'
    rw [deterministic_seq (deterministic_char isNewline) deterministic_empty c' k]
    simp
  simp only [hrest]
  refine run_star deterministic_bullet length_stepBullet (fun hstep => ?_) h
  obtain ⟨x, rest, -, hafter, -⟩ := exists_of_stepBullet hstep
  rw [stepChar, hafter, bulletText]
  rfl

/-! ## A banner of two forms -/

section Forms

variable (heading listed plain : String)

/-- A heading, and a sentence with bullets behind it or another sentence. -/
def bannerRe : RegExp :=
  .concat
    [.textStart, .literal heading,
      .alt (.concat [.literal listed, .star bulletRe, .char isNewline]) (.literal plain)]

/-- `text` is such a banner, with `rest` behind it. -/
inductive IsBanner : List Char → List Char → Prop
  | plain (rest : List Char) : IsBanner (heading.toList ++ (plain.toList ++ rest)) rest
  | listed {xs : List (List Char)} (hxs : ∀ x ∈ xs, '\n' ∉ x) (rest : List Char) :
    IsBanner (heading.toList ++ (listed.toList ++ (xs.flatMap bulletText ++ '\n' :: rest))) rest

/-- The sentence with bullets behind it. -/
def listedRun (c : Cursor) : Option Cursor :=
  (stepText listed.toList c).bind fun c => (RegExp.concat [.star bulletRe, .char isNewline]).run c some

variable {heading listed plain}

theorem run_bannerRe (text : List Char) : (bannerRe heading listed plain).run ⟨[], text, []⟩ some =
    (stepText heading.toList ⟨[], text, []⟩).bind fun c => (listedRun listed c).or (stepText plain.toList c) := by
  change (literal heading).run ⟨[], text, []⟩ (fun c =>
    ((literal listed).run c fun c => (RegExp.concat [.star bulletRe, .char isNewline]).run c some).or
      ((literal plain).run c some)) = _
  rw [deterministic_literal heading]
  refine congrArg _ (funext fun c => ?_)
  rw [deterministic_literal listed, deterministic_literal plain, Option.bind_fun_some, listedRun]

variable {c : Cursor} {rest : List Char}

theorem listedRun_append {xs : List (List Char)} (hxs : ∀ x ∈ xs, '\n' ∉ x)
    (h : c.after = listed.toList ++ (xs.flatMap bulletText ++ '\n' :: rest)) :
    ∃ d, listedRun listed c = some d ∧ d.after = rest := by
  obtain ⟨d, hd, hafter⟩ := exhausts_bullets hxs (c.after_move listed.toList _)
  refine ⟨d.move ['\n'] rest, ?_, rfl⟩
  rw [listedRun, stepText_append h, Option.bind_some, run_bullets hd, stepChar, hafter]
  rfl

theorem exists_of_listedRun {d : Cursor} (h : listedRun listed c = some d) :
    ∃ xs : List (List Char), (∀ x ∈ xs, '\n' ∉ x) ∧
      c.after = listed.toList ++ (xs.flatMap bulletText ++ '\n' :: d.after) := by
  obtain ⟨c', htext, hrun⟩ := Option.bind_eq_some_iff.mp h
  obtain ⟨rest, hafter, rfl⟩ := exists_of_stepText htext
  obtain ⟨e, he⟩ := exists_exhausts length_stepBullet (c.move listed.toList rest)
  obtain ⟨xs, hxs, hbullets⟩ := exists_of_exhausts he
  rw [run_bullets he, Option.bind_fun_some, stepChar] at hrun
  rw [Cursor.after_move] at hbullets
  refine ⟨xs, hxs, ?_⟩
  rw [hafter, hbullets]
  split at hrun
  · cases hrun
  · next y ys hys =>
    split at hrun
    · next hy =>
      obtain rfl := Option.some.inj hrun
      have hy' : y = '\n' := eq_of_beq hy
      rw [hys, Cursor.after_move, hy']
    · cases hrun

theorem run_iff_isBanner (hne : ∀ cs ds, listed.toList ++ cs ≠ plain.toList ++ ds) {text rest : List Char} :
    (∃ d, (bannerRe heading listed plain).run ⟨[], text, []⟩ some = some d ∧ d.after = rest) ↔
      IsBanner heading listed plain text rest := by
  rw [run_bannerRe]
  constructor
  · rintro ⟨d, hrun, rfl⟩
    obtain ⟨c, htext, hrun⟩ := Option.bind_eq_some_iff.mp hrun
    obtain ⟨cs, hafter, rfl⟩ := exists_of_stepText htext
    obtain rfl : text = heading.toList ++ cs := hafter
    rcases Option.or_eq_some_iff.mp hrun with hlisted | ⟨-, hplain⟩
    · obtain ⟨xs, hxs, hcs⟩ := exists_of_listedRun hlisted
      obtain rfl : cs = _ := hcs
      exact .listed hxs _
    · obtain ⟨rest, hcs, rfl⟩ := exists_of_stepText hplain
      obtain rfl : cs = _ := hcs
      exact .plain _
  · intro h
    cases h with
    | plain rest =>
      have hheading := stepText_append (c := ⟨[], heading.toList ++ (plain.toList ++ rest), []⟩) rfl
      rw [hheading, Option.bind_some, stepText_append (c := Cursor.move _ _ (plain.toList ++ rest)) rfl]
      refine ⟨_, Option.or_eq_some_iff.mpr (.inr ⟨?_, rfl⟩), Cursor.after_move _ _ _⟩
      rw [Option.eq_none_iff_forall_ne_some]
      intro d hd
      obtain ⟨xs, -, hcs⟩ := exists_of_listedRun hd
      exact hne _ _ hcs.symm
    | @listed xs hxs rest =>
      have hheading := stepText_append (c := ⟨[], heading.toList ++
        (listed.toList ++ (xs.flatMap bulletText ++ '\n' :: rest)), []⟩) rfl
      obtain ⟨d, hd, hafter⟩ := listedRun_append (c := Cursor.move _ heading.toList _) hxs rfl
      rw [hheading, Option.bind_some, hd, Option.some_or]
      exact ⟨d, rfl, hafter⟩

theorem IsBanner.eq_nil {text : List Char} (h : IsBanner heading listed plain text rest) (ht : text = []) :
    rest = [] := by
  cases h with
  | plain => simp_all
  | listed => simp at ht

theorem replaceFirstFrom_before (f : RegExp.Match → String) (b : Char) (before cs : List Char) :
    (bannerRe heading listed plain).replaceFirstFrom f (b :: before) cs = cs := by
  have hno : ∀ b before cs, (bannerRe heading listed plain).matchAt ⟨b :: before, cs, []⟩ = none := fun _ _ _ => rfl
  induction cs generalizing b before with
  | nil => rw [replaceFirstFrom, hno]
  | cons x xs ih => rw [replaceFirstFrom, hno, ih]

/-- The text without the banner in front of it. -/
theorem removeBanner_of_isBanner (hne : ∀ cs ds, listed.toList ++ cs ≠ plain.toList ++ ds) {text : String}
    {rest : List Char} (h : IsBanner heading listed plain text.toList rest) :
    ((bannerRe heading listed plain).replaceFirst (fun _ => "") text).toList = rest := by
  obtain ⟨d, hrun, hafter⟩ := (run_iff_isBanner hne).mpr h
  have hmatch : ∃ m, (bannerRe heading listed plain).matchAt ⟨[], text.toList, []⟩ = some (m, d) := by
    rw [matchAt, hrun]
    exact ⟨_, rfl⟩
  obtain ⟨m, hmatch⟩ := hmatch
  rw [replaceFirst, String.toList_ofList]
  cases htext : text.toList with
  | nil =>
    rw [htext] at hmatch
    rw [replaceFirstFrom, hmatch, h.eq_nil htext]
    rfl
  | cons x xs =>
    rw [htext] at hmatch
    rw [replaceFirstFrom, hmatch]
    exact hafter

theorem removeBanner_of_not (hne : ∀ cs ds, listed.toList ++ cs ≠ plain.toList ++ ds) {text : String}
    (h : ∀ rest, ¬IsBanner heading listed plain text.toList rest) :
    (bannerRe heading listed plain).replaceFirst (fun _ => "") text = text := by
  have hmatch : (bannerRe heading listed plain).matchAt ⟨[], text.toList, []⟩ = none := by
    rw [matchAt, Option.map_eq_none_iff, Option.eq_none_iff_forall_ne_some]
    intro d hd
    exact h d.after ((run_iff_isBanner hne).mp ⟨d, hd, rfl⟩)
  rw [replaceFirst, ← String.toList_inj, String.toList_ofList]
  cases htext : text.toList with
  | nil =>
    rw [htext] at hmatch
    rw [replaceFirstFrom, hmatch]
  | cons x xs =>
    rw [htext] at hmatch
    rw [replaceFirstFrom, hmatch]
    exact congrArg _ (replaceFirstFrom_before _ x [] xs)

end Forms

/-! ## Lines -/

/-- Lines, each with its line break. -/
def closedLines (lines : List (List Char)) : List Char := lines.flatMap (· ++ ['\n'])

theorem closedLines_eq (lines : List (List Char)) : closedLines lines = join '\n' (lines ++ [[]]) := by
  induction lines with
  | nil => rfl
  | cons line lines ih =>
    rw [List.cons_append, join_cons line (by simp), ← ih, closedLines, closedLines, List.flatMap_cons,
      List.append_assoc, List.singleton_append]

theorem closedLines_of_ne_nil (h : lines ≠ []) :
    closedLines lines = join '\n' lines ++ ['\n'] := by
  rw [closedLines_eq, join_append h (by simp), join_singleton]

theorem closedLines_inj {lines' : List (List Char)} (h : ∀ line ∈ lines, '\n' ∉ line)
    (h' : ∀ line ∈ lines', '\n' ∉ line) (heq : closedLines lines = closedLines lines') : lines = lines' := by
  have hsplit : ∀ {ls : List (List Char)}, (∀ l ∈ ls, '\n' ∉ l) → (closedLines ls).splitOn '\n' = ls ++ [[]] := by
    intro ls hls
    rw [closedLines_eq]
    refine splitOn_join ?_ (by simp)
    rw [List.forall_mem_append]
    exact ⟨hls, by simp⟩
  have hlists := hsplit h
  rw [heq, hsplit h'] at hlists
  exact (List.append_cancel_right hlists).symm

/-- The bullet of a reason. -/
def bulletOf (reason : String) : List Char := '-' :: ' ' :: reason.toList

/-- Every line of the reason behind its first is a bullet itself. -/
def KeepsBullets (reason : String) : Prop :=
  ∀ line ∈ (reason.toList.splitOn '\n').tail, ['-', ' '] <+: line

instance (reason : String) : Decidable (KeepsBullets reason) :=
  inferInstanceAs (Decidable (∀ line ∈ (reason.toList.splitOn '\n').tail, ['-', ' '] <+: line))

theorem splitOn_bulletOf (reason : String) : ∃ first,
    (bulletOf reason).splitOn '\n' = ('-' :: ' ' :: first) :: (reason.toList.splitOn '\n').tail := by
  obtain ⟨first, behind, hlines⟩ := List.exists_cons_of_ne_nil (List.splitOn_ne_nil '\n' reason.toList)
  have hfree : ∀ line ∈ reason.toList.splitOn '\n', '\n' ∉ line := fun line => not_mem_of_mem_splitOn
  have hjoin : join '\n' (reason.toList.splitOn '\n') = reason.toList := join_splitOn reason.toList
  rw [hlines] at hfree hjoin
  refine ⟨first, ?_⟩
  have hbullet : bulletOf reason = join '\n' (('-' :: ' ' :: first) :: behind) := by
    rw [bulletOf, ← hjoin]
    rcases eq_or_ne behind [] with rfl | hne
    · rw [join_singleton, join_singleton]
    · rw [join_cons _ hne, join_cons _ hne]
      rfl
  rw [hbullet, hlines, List.tail_cons]
  refine splitOn_join (List.forall_mem_cons.mpr ⟨?_, (List.forall_mem_cons.mp hfree).2⟩) (by simp)
  simpa using (List.forall_mem_cons.mp hfree).1

/-- The bullets of some reasons are bullets of one line each when all their lines are bullets. -/
theorem exists_bullets_iff (reasons : List String) (hne : reasons ≠ []) :
    (∃ xs : List (List Char), (∀ x ∈ xs, '\n' ∉ x) ∧
      join '\n' (reasons.map bulletOf) ++ ['\n'] = xs.flatMap bulletText) ↔ ∀ reason ∈ reasons, KeepsBullets reason := by
  obtain ⟨lines, hlines⟩ : ∃ lines, lines = reasons.flatMap fun reason => (bulletOf reason).splitOn '\n' := ⟨_, rfl⟩
  have hfree : ∀ line ∈ lines, '\n' ∉ line := by
    intro line hline
    rw [hlines] at hline
    obtain ⟨reason, -, hsplit⟩ := List.mem_flatMap.mp hline
    exact not_mem_of_mem_splitOn hsplit
  have hclosed : join '\n' (reasons.map bulletOf) ++ ['\n'] = closedLines lines := by
    rw [← closedLines_of_ne_nil (by simpa using hne), closedLines, closedLines, hlines, List.flatMap_map,
      List.flatMap_assoc]
    refine List.flatMap_congr fun reason _ => ?_
    exact ((closedLines_of_ne_nil (List.splitOn_ne_nil '\n' _)).trans (by rw [join_splitOn])).symm
  have htexts : ∀ xs : List (List Char), xs.flatMap bulletText = closedLines (xs.map fun x => '-' :: ' ' :: x) := by
    intro xs
    rw [closedLines, List.flatMap_map]
    rfl
  have hkeeps : (∀ reason ∈ reasons, KeepsBullets reason) ↔ ∀ line ∈ lines, ['-', ' '] <+: line := by
    rw [hlines, List.forall_mem_flatMap]
    refine forall_congr' fun reason => imp_congr_right fun _ => ?_
    obtain ⟨first, hsplit⟩ := splitOn_bulletOf reason
    rw [hsplit, List.forall_mem_cons, KeepsBullets]
    exact (and_iff_right ⟨first, rfl⟩).symm
  rw [hclosed, hkeeps]
  constructor
  · rintro ⟨xs, hxs, heq⟩ line hline
    rw [htexts] at heq
    have hsame := closedLines_inj hfree (by simpa using hxs) heq
    rw [hsame] at hline
    obtain ⟨x, -, rfl⟩ := List.mem_map.mp hline
    exact ⟨x, rfl⟩
  · intro hbullets
    refine ⟨lines.map (List.drop 2), ?_, ?_⟩
    · intro x hx
      obtain ⟨line, hline, rfl⟩ := List.mem_map.mp hx
      exact fun hmem => hfree line hline (List.mem_of_mem_drop hmem)
    · rw [htexts, List.map_map]
      refine congrArg _ (Eq.symm ?_)
      refine (List.map_congr_left fun line hline => ?_).trans (List.map_id lines)
      obtain ⟨x, rfl⟩ := hbullets line hline
      rfl

/-! ## The enforcement banner -/

/-- What both forms of the banner begin with. -/
def bannerHeading : String := "## Final Recommendation\nRequest changes. "

def listedSentence : String :=
  "The following enforcement check(s) require this PR to be treated as blocking "
    ++ "even if the model's initial review text was approving:\n\n"

def plainSentence : String :=
  "One or more configured enforcement checks require this PR to be treated as "
    ++ "blocking even if the model's initial review text was approving.\n\n"

theorem enforcedBannerRe_eq : enforcedBannerRe = bannerRe bannerHeading listedSentence plainSentence := rfl

/-- The banner that is put before the markdown. -/
def enforcementBanner (reasons : List String) : String :=
  if reasons.length > 0 then
    "## Final Recommendation\n"
      ++ "Request changes. The following enforcement check(s) require this PR "
      ++ "to be treated as blocking even if the model's initial review text was approving:\n\n"
      ++ "\n".intercalate (reasons.map ("- " ++ ·)) ++ "\n\n"
  else
    "## Final Recommendation\n"
      ++ "Request changes. One or more configured enforcement checks require this PR "
      ++ "to be treated as blocking even if the model's initial review text was approving.\n\n"

/-- The markdown with its own recommendation rewritten. -/
def rewrittenMarkdown (a : ReviewArtifact) : String :=
  recommendationRe.replaceAll
    (fun m => (m.group? 1).getD "" ++ "Model recommendation before enforcement: Approve") a.reviewMarkdown

/-- A banner is put before the markdown of the artifact. -/
def TakesBanner (a : ReviewArtifact) : Prop :=
  a.verdict = .requestChanges ∧
    startsWith (trimStart (rewrittenMarkdown a)) "## Final Recommendation" = false

theorem normalize_of_takesBanner (h : TakesBanner a) (reasons : Option (List String)) :
    normalizeEnforcedReviewMarkdown a reasons =
      { a with reviewMarkdown := enforcementBanner (reasons.getD []) ++ trimStart (rewrittenMarkdown a) } := by
  rw [normalizeEnforcedReviewMarkdown, if_neg (not_not_intro h.1), enforcementBanner]
  have hstart := h.2
  rw [rewrittenMarkdown] at hstart ⊢
  dsimp only
  rw [hstart, if_neg Bool.false_ne_true]
  split <;> rfl

theorem sentences_ne (cs ds : List Char) : listedSentence.toList ++ cs ≠ plainSentence.toList ++ ds := by
  have hlisted : ∃ rest, listedSentence.toList = 'T' :: rest :=
    ⟨_, String.toList_append.trans (congrArg (· ++ _) String.toList_ofList)⟩
  have hplain : ∃ rest, plainSentence.toList = 'O' :: rest :=
    ⟨_, String.toList_append.trans (congrArg (· ++ _) String.toList_ofList)⟩
  obtain ⟨_, hlisted⟩ := hlisted
  obtain ⟨_, hplain⟩ := hplain
  intro h
  rw [hlisted, hplain] at h
  cases h

theorem toList_plainBanner : (enforcementBanner []).toList = bannerHeading.toList ++ plainSentence.toList := by
  have htext : enforcementBanner [] = bannerHeading ++ plainSentence := by decide +kernel
  rw [htext, String.toList_append]

theorem toList_listedBanner {reasons : List String} (hne : reasons ≠ []) :
    (enforcementBanner reasons).toList = bannerHeading.toList ++ (listedSentence.toList ++
      (join '\n' (reasons.map bulletOf) ++ ['\n', '\n'])) := by
  have hsentence : "## Final Recommendation\n"
      ++ "Request changes. The following enforcement check(s) require this PR "
      ++ "to be treated as blocking even if the model's initial review text was approving:\n\n" =
      bannerHeading ++ listedSentence := by decide +kernel
  have hjoin : ("\n".intercalate (reasons.map ("- " ++ ·))).toList = join '\n' (reasons.map bulletOf) := by
    have hbullet : (String.toList ∘ fun reason => "- " ++ reason) = bulletOf := by
      funext reason
      simp [bulletOf]
    rw [String.toList_intercalate, List.map_map, hbullet]
    rfl
  rw [enforcementBanner, if_pos (List.length_pos_iff.mpr hne), hsentence]
  simp only [String.toList_append, hjoin, List.append_assoc]
  rfl

/-- The text without the banner that the pattern sees in front of it. -/
def removeBanner (text : String) : String := enforcedBannerRe.replaceFirst (fun _ => "") text

theorem reconcile_eq (h : a.verdict ≠ .requestChanges) :
    (reconcileEnforcedReviewMarkdown a).reviewMarkdown = removeBanner a.reviewMarkdown := by
  rw [reconcileEnforcedReviewMarkdown, if_neg h]
  rfl

theorem toList_removeBanner
    (h : IsBanner bannerHeading listedSentence plainSentence text.toList rest) : (removeBanner text).toList = rest := by
  rw [removeBanner, enforcedBannerRe_eq]
  exact removeBanner_of_isBanner sentences_ne h

theorem exists_isBanner (h : removeBanner text ≠ text) :
    ∃ rest, IsBanner bannerHeading listedSentence plainSentence text.toList rest := by
  by_contra hno
  rw [not_exists] at hno
  rw [removeBanner, enforcedBannerRe_eq] at h
  exact h (removeBanner_of_not sentences_ne hno)

theorem isBanner_length {text : List Char} (h : IsBanner bannerHeading listedSentence plainSentence text rest) :
    rest.length < text.length := by
  have hheading : 0 < bannerHeading.toList.length := by decide +kernel
  cases h with
  | plain =>
    rw [List.length_append, List.length_append]
    omega
  | listed =>
    simp only [List.length_append, List.length_cons]
    omega

/-- The banner goes, all of it and nothing more, exactly when the lines of its reasons are bullets. -/
theorem removeBanner_banner (reasons : List String) (markdown : String) :
    removeBanner (enforcementBanner reasons ++ markdown) = markdown ↔ ∀ reason ∈ reasons, KeepsBullets reason := by
  rcases eq_or_ne reasons [] with rfl | hne
  · refine iff_of_true ?_ (List.forall_mem_nil _)
    rw [← String.toList_inj]
    refine toList_removeBanner ?_
    rw [String.toList_append, toList_plainBanner, List.append_assoc]
    exact .plain _
  have htext : (enforcementBanner reasons ++ markdown).toList = bannerHeading.toList ++ (listedSentence.toList ++
      ((join '\n' (reasons.map bulletOf) ++ ['\n']) ++ '\n' :: markdown.toList)) := by
    rw [String.toList_append, toList_listedBanner hne]
    simp
  rw [← exists_bullets_iff reasons hne]
  constructor
  · intro hremoved
    have hchanged : removeBanner (enforcementBanner reasons ++ markdown) ≠ enforcementBanner reasons ++ markdown := by
      rw [hremoved]
      intro hsame
      have hlength := congrArg (fun t : String => t.toList.length) hsame
      rw [htext] at hlength
      simp only [List.length_append, List.length_cons] at hlength
      omega
    obtain ⟨rest, hbanner⟩ := exists_isBanner hchanged
    have hrest := toList_removeBanner hbanner
    rw [hremoved] at hrest
    subst hrest
    rw [htext] at hbanner
    generalize hall : bannerHeading.toList ++ (listedSentence.toList ++
      ((join '\n' (reasons.map bulletOf) ++ ['\n']) ++ '\n' :: markdown.toList)) = all at hbanner
    cases hbanner with
    | plain => exact absurd (List.append_cancel_left hall) (sentences_ne _ _)
    | @listed xs hxs =>
      have hbehind := List.append_cancel_left (List.append_cancel_left hall)
      exact ⟨xs, hxs, List.append_cancel_right hbehind⟩
  · rintro ⟨xs, hxs, hbullets⟩
    rw [← String.toList_inj]
    refine toList_removeBanner ?_
    rw [htext, hbullets]
    exact .listed hxs _

/-- The first sentence with no bullet behind it, which is no banner of the writer. -/
def emptyListedBanner : String := bannerHeading ++ listedSentence ++ "\n"

theorem startsWith_iff {s t : String} : startsWith s t = true ↔ ∃ rest, s.toList = t.toList ++ rest := by
  rw [startsWith, List.isPrefixOf_iff_prefix]
  exact exists_congr fun rest => eq_comm

theorem toList_emptyListedBanner :
    emptyListedBanner.toList = bannerHeading.toList ++ (listedSentence.toList ++ ['\n']) := by
  rw [emptyListedBanner, String.toList_append, String.toList_append, List.append_assoc]
  rfl

/-- No text begins both with a banner of the writer and with the sentence that has no bullet behind it. -/
theorem not_startsWith_banner (h : startsWith text emptyListedBanner = true) (reasons : List String) :
    startsWith text (enforcementBanner reasons) = false := by
  rw [Bool.eq_false_iff]
  intro hbanner
  obtain ⟨rest, htext⟩ := startsWith_iff.mp h
  obtain ⟨rest', htext'⟩ := startsWith_iff.mp hbanner
  rw [htext, toList_emptyListedBanner, List.append_assoc, List.append_assoc] at htext'
  rcases reasons with _ | ⟨reason, reasons⟩
  · rw [toList_plainBanner, List.append_assoc] at htext'
    exact sentences_ne _ _ (List.append_cancel_left htext')
  · rw [toList_listedBanner (by simp), List.append_assoc, List.append_assoc] at htext'
    have hbehind := List.append_cancel_left (List.append_cancel_left htext')
    have hbullet : ∃ cs, join '\n' ((reason :: reasons).map bulletOf) = '-' :: cs := by
      rcases eq_or_ne reasons [] with rfl | hne
      · exact ⟨_, by rw [List.map_cons, List.map_nil, join_singleton, bulletOf]⟩
      · exact ⟨_, by rw [List.map_cons, join_cons _ (by simpa using hne), bulletOf]; rfl⟩
    obtain ⟨cs, hcs⟩ := hbullet
    rw [hcs] at hbehind
    exact absurd (List.cons.inj hbehind).1 (by decide)

/-- Text that is no banner of the writer goes only where the first sentence has no bullet behind it. -/
theorem removeBanner_other (text : String) :
    (removeBanner text ≠ text → ∃ reasons, startsWith text (enforcementBanner reasons) = true) ↔
      startsWith text emptyListedBanner = false := by
  constructor
  · intro h
    rw [Bool.eq_false_iff]
    intro hempty
    obtain ⟨rest, htext⟩ := startsWith_iff.mp hempty
    have hbanner : IsBanner bannerHeading listedSentence plainSentence text.toList rest := by
      rw [htext, toList_emptyListedBanner, List.append_assoc, List.append_assoc]
      exact @IsBanner.listed _ _ _ [] (List.forall_mem_nil _) rest
    have hchanged : removeBanner text ≠ text := by
      intro hsame
      have hrest := toList_removeBanner hbanner
      rw [hsame] at hrest
      have hlength := isBanner_length hbanner
      rw [hrest] at hlength
      exact hlength.false
    obtain ⟨reasons, hreasons⟩ := h hchanged
    rw [not_startsWith_banner hempty] at hreasons
    cases hreasons
  · intro hempty hchanged
    obtain ⟨rest, hbanner⟩ := exists_isBanner hchanged
    generalize htext : text.toList = all at hbanner
    cases hbanner with
    | plain =>
      refine ⟨[], startsWith_iff.mpr ⟨rest, ?_⟩⟩
      rw [htext, toList_plainBanner, List.append_assoc]
    | @listed xs hxs =>
      rcases eq_or_ne xs [] with rfl | hne
      · rw [Bool.eq_false_iff] at hempty
        refine absurd (startsWith_iff.mpr ⟨rest, ?_⟩) hempty
        rw [htext, toList_emptyListedBanner, List.append_assoc, List.append_assoc]
        rfl
      · have hbullets : join '\n' ((xs.map String.ofList).map bulletOf) ++ ['\n'] = xs.flatMap bulletText := by
          rw [← closedLines_of_ne_nil (by simpa using hne), closedLines, List.flatMap_map, List.flatMap_map]
          refine List.flatMap_congr fun x _ => ?_
          rw [bulletOf, String.toList_ofList]
          rfl
        refine ⟨xs.map String.ofList, startsWith_iff.mpr ⟨rest, ?_⟩⟩
        rw [htext, toList_listedBanner (by simpa using hne), ← hbullets]
        simp

/-- After a later verdict the banner goes, all of it and nothing more, exactly when every line of a reason behind its
first is a bullet itself; and text that is no banner goes exactly when it begins with the first sentence and no bullet
behind it. -/
theorem reconcile_iff (a : ReviewArtifact) (reasons : Option (List String)) :
    (TakesBanner a → ∀ verdict ≠ VerdictValue.requestChanges,
      (reconcileEnforcedReviewMarkdown { normalizeEnforcedReviewMarkdown a reasons with verdict }).reviewMarkdown =
        trimStart (rewrittenMarkdown a) ↔ ∀ reason ∈ reasons.getD [], KeepsBullets reason) ∧
    ∀ b : ReviewArtifact, b.verdict ≠ .requestChanges →
      (((reconcileEnforcedReviewMarkdown b).reviewMarkdown ≠ b.reviewMarkdown →
        ∃ rs, startsWith b.reviewMarkdown (enforcementBanner rs) = true) ↔
      startsWith b.reviewMarkdown emptyListedBanner = false) := by
  constructor
  · intro htakes verdict hverdict
    rw [reconcile_eq hverdict, normalize_of_takesBanner htakes]
    exact removeBanner_banner _ _
  · intro b hb
    rw [reconcile_eq hb]
    exact removeBanner_other _

/-- A markdown whose first character starts neither a heading nor a recommendation takes a banner. -/
theorem takesBanner_of_head {c : Char} {cs : List Char} (hverdict : a.verdict = .requestChanges)
    (htext : a.reviewMarkdown.toList = c :: cs) (hspace : isSpace c = false) (hc : c ≠ '#')
    (hmatch : recommendationRe.matchAt ⟨[], c :: cs, []⟩ = none) : TakesBanner a := by
  refine ⟨hverdict, ?_⟩
  have hrewritten : ∃ ds, (rewrittenMarkdown a).toList = c :: ds := by
    rw [rewrittenMarkdown, replaceAll, String.toList_ofList, htext, List.length_cons]
    unfold replaceAllFrom
    rw [hmatch]
    exact ⟨_, rfl⟩
  obtain ⟨ds, hds⟩ := hrewritten
  rw [Bool.eq_false_iff]
  intro hstarts
  obtain ⟨rest, hrest⟩ := startsWith_iff.mp hstarts
  rw [trimStart, String.toList_ofList, hds, List.dropWhile_cons_of_neg (by simp [hspace])] at hrest
  exact hc (List.cons.inj hrest).1

/-- What the harness enforcement says of a planning error of two lines. -/
theorem not_keepsBullets_retry : ¬KeepsBullets ("Tool harness failure detected (" ++ "timeout\nretry" ++ "). "
    ++ "The tool harness failed during planning or execution; "
    ++ "this workflow is configured fail-closed for tool harness failures.") := by
  rw [KeepsBullets, String.toList_append, String.toList_append, String.toList_append,
    String.toList_append, show "Tool harness failure detected (".toList = _ from String.toList_ofList,
    show "timeout\nretry".toList = _ from String.toList_ofList, show "). ".toList = _ from String.toList_ofList,
    show "The tool harness failed during planning or execution; ".toList = _ from String.toList_ofList,
    show "this workflow is configured fail-closed for tool harness failures.".toList = _ from String.toList_ofList]
  decide +kernel

/-- A planning error of two lines: the forced artifact keeps its banner when the verdict is approve later. -/
theorem reconcile_keeps_banner :
    let inputs : EnforcementInputs :=
      { toolFailureEnabled := true, toolHarness := some { planningError := some "timeout\nretry" } }
    let run := toolStep inputs (.start { verdict := .requestChanges, reviewMarkdown := "Looks good." })
    (applyAllEnforcement { verdict := .requestChanges, reviewMarkdown := "Looks good." } inputs).1 =
        normalizeEnforcedReviewMarkdown run.artifact (some run.forcingReasons) ∧
      TakesBanner run.artifact ∧
      (reconcileEnforcedReviewMarkdown
        { normalizeEnforcedReviewMarkdown run.artifact (some run.forcingReasons) with verdict := .approve }
        ).reviewMarkdown ≠ trimStart (rewrittenMarkdown run.artifact) := by
  intro inputs run
  have hquiet : ∀ run, humanReviewStep inputs (threadStep inputs (obligationStep inputs run)) = run := fun _ => rfl
  have hsection : ∃ cs, run.artifact.reviewMarkdown.toList = 'L' :: cs := by
    have htext : ∃ t, run.artifact.reviewMarkdown = "Looks good." ++ t := ⟨_, rfl⟩
    obtain ⟨t, ht⟩ := htext
    rw [ht, String.toList_append]
    exact ⟨_, rfl⟩
  obtain ⟨cs, hcs⟩ := hsection
  have htakes : TakesBanner run.artifact := takesBanner_of_head rfl hcs rfl (by decide) rfl
  refine ⟨congrArg (fun run => (bannerStep run).artifact) (hquiet run), htakes, ?_⟩
  rw [reconcile_eq (by decide), normalize_of_takesBanner htakes, ne_eq, removeBanner_banner]
  exact fun hkeeps => not_keepsBullets_retry (hkeeps _ (List.mem_singleton_self _))

end PrReviewer.Enforcement
