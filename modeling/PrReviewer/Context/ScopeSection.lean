import PrReviewer.Context.RereviewScope
import PrReviewer.Js.Join
import PrReviewer.Js.Lines

/-!
# What the re-review section lists

`src/context/rereview-scope.ts`: every frame of the section closes its fences, and has its entries in them, each on a line
of its own (`closed_scopeFrame`); the last frame is small enough (`size_scopeFrame_zero`), so the section is.

What is left out of the lists is disclosed, but for commits that the delta lost before: `scope_holds_iff` says when it has
lost none without its flag.
-/

namespace PrReviewer.Context

open Js List
open Enforcement (fenceDelimiterFor backticks)

/-! ## Lines of the section -/

/-- The lines of a text. -/
def linesOf (s : String) : List (List Char) := s.toList.splitOn '\n'

/-- Text that is a line outside of the fences. -/
structure PlainLine (s : String) : Prop where
  single : '\n' ∉ s.toList
  begins : (s.toList.head?.any fun c => c ≠ ' ' && c ≠ backtick && c ≠ '~') = true

variable {cs : List Char} {s t basePart prior head : String} {commit : DeltaCommit}

/-- The characters of a literal decide what it is. -/
theorem plainLine_ofList (h : '\n' ∉ cs)
    (hbegins : (cs.head?.any fun c => c ≠ ' ' && c ≠ backtick && c ≠ '~') = true) : PlainLine (String.ofList cs) := by
  constructor
  · rwa [String.toList_ofList]
  · rwa [String.toList_ofList]

theorem not_mem_ofList (h : '\n' ∉ cs) : '\n' ∉ (String.ofList cs).toList := by
  rwa [String.toList_ofList]

theorem PlainLine.append (h : PlainLine s) (ht : '\n' ∉ t.toList) : PlainLine (s ++ t) := by
  refine ⟨?_, ?_⟩
  · rw [String.toList_append, mem_append]
    exact not_or.mpr ⟨h.single, ht⟩
  · have hbegins := h.begins
    rw [String.toList_append, List.head?_append]
    cases hhead : s.toList.head? with
    | none => rw [hhead] at hbegins; cases hbegins
    | some c => rwa [hhead] at hbegins

theorem PlainLine.not_opensFence (h : PlainLine s) : ¬ OpensFence s.toList := by
  refine Context.not_opensFence fun c hc => ?_
  have hbegins := h.begins
  rw [Option.mem_def.mp hc] at hbegins
  simpa [and_assoc] using hbegins

theorem linesOf_plain (h : '\n' ∉ s.toList) : linesOf s = [s.toList] := splitOn_eq_singleton h

theorem linesOf_joined {parts : List String} (hne : parts ≠ []) :
    linesOf ("\n".intercalate parts ++ "\n") = parts.flatMap linesOf ++ [[]] := by
  have hjoin : ("\n".intercalate parts ++ "\n").toList = ['\n'].intercalate (parts.map String.toList ++ [[]]) := by
    rw [String.toList_append, String.toList_intercalate]
    have happend := @join_append '\n' (parts.map String.toList) [[]] (by simpa using hne) (by simp)
    rw [join_singleton] at happend
    exact happend.symm
  rw [linesOf, hjoin, splitOn_intercalate_flatMap '\n' (by simp), flatMap_append, flatMap_map]
  rfl

/-- Plain lines, and empty ones, close no fence and open none. -/
theorem closed_plain {parts : List String} (h : ∀ s ∈ parts, s = "" ∨ PlainLine s) : FencesClosed (parts.flatMap linesOf) [] := by
  refine fencesClosed_of_plain fun line hline => ?_
  obtain ⟨s, hs, hline⟩ := mem_flatMap.mp hline
  rcases h s hs with rfl | hplain
  · rw [linesOf_plain (by simp), mem_singleton] at hline
    rw [hline]
    exact not_opensFence_nil
  · rw [linesOf_plain hplain.single, mem_singleton] at hline
    rw [hline]
    exact hplain.not_opensFence

/-! ## Lists in their fences -/

/-- The lines in the fence of a list, if it has one. -/
def fenceBodies (entries : List String) : List (List (List Char)) :=
  if entries = [] then [] else [[] :: (entries.map String.toList ++ [[]])]

theorem toList_fence (data : String) : (fenceDelimiterFor data).toList = List.replicate (fenceLength data) backtick := by
  rw [fenceDelimiterFor_eq, backticks, String.toList_ofList]
  rfl

theorem linesOf_fence (data : String) :
    linesOf (fenceDelimiterFor data ++ "\n") = [List.replicate (fenceLength data) backtick, []] := by
  have hline : '\n' ∉ (fenceDelimiterFor data).toList := by
    rw [toList_fence, mem_replicate]
    rintro ⟨-, h⟩
    exact absurd h (by decide)
  have hjoined := @linesOf_joined [fenceDelimiterFor data] (by simp)
  rw [String.intercalate_singleton] at hjoined
  rw [hjoined, flatMap_singleton, linesOf_plain hline, toList_fence]
  rfl

theorem closed_fencedList {entries : List String} (hne : entries ≠ []) (h : ∀ s ∈ entries, '\n' ∉ s.toList) :
    FencesClosed ((fencedList entries).flatMap linesOf) (fenceBodies entries) := by
  have hentries : entries.flatMap linesOf = entries.map String.toList := by
    rw [← flatMap_singleton' (entries.map String.toList), flatMap_map]
    exact flatMap_congr fun s hs => linesOf_plain (h s hs)
  have hpayload := linesOf_joined hne
  rw [hentries] at hpayload
  generalize hdata : "\n".intercalate entries ++ "\n" = payload at hpayload
  have hbody : ∀ line ∈ [] :: (entries.map String.toList ++ [[]]), ¬ ClosesFence (fenceLength payload) line := by
    intro line hline
    refine not_closesFence ?_
    rcases mem_cons.mp hline with rfl | hline
    · exact nil_infix
    · rcases mem_append.mp hline with hline | hline
      · obtain ⟨s, hs, rfl⟩ := mem_map.mp hline
        rw [← hdata, String.toList_append]
        exact (infix_intercalate hs).trans (prefix_append _ _).isInfix
      · rw [mem_singleton.mp hline]
        exact nil_infix
  have hblock := FencesClosed.fence (three_le_fenceLength payload) hbody (.plain not_opensFence_nil .nil)
  simp only [fencedList, hdata, flatMap_cons, flatMap_nil, linesOf_fence, hpayload, fenceBodies, if_neg hne]
  simpa using hblock

/-! ## The frame -/

theorem not_mem_append (hs : '\n' ∉ s.toList) (ht : '\n' ∉ t.toList) : '\n' ∉ (s ++ t).toList := by
  rw [String.toList_append, mem_append]
  exact not_or.mpr ⟨hs, ht⟩

theorem not_mem_codeSpan (h : '\n' ∉ s.toList) : '\n' ∉ (codeSpan s).toList :=
  not_mem_append (not_mem_append (by decide) h) (by decide)

theorem not_mem_toString (n : Nat) : '\n' ∉ (toString n).toList := by
  rw [Nat.toString_eq_repr, Nat.toList_repr]
  intro h
  exact absurd (Nat.isDigit_of_mem_toDigits (by decide) (by decide) h) (by decide)

theorem not_mem_of_isSha (h : isSha s = true) : '\n' ∉ s.toList := by
  intro hmem
  simp only [isSha, isRun, Bool.and_eq_true, all_eq_true] at h
  exact absurd (h.2 _ hmem) (by decide)

theorem plain_scopeHead (hbase : '\n' ∉ basePart.toList) (hprior : '\n' ∉ prior.toList)
    (hhead : '\n' ∉ head.toList) : ∀ s ∈ scopeHead basePart prior head, s = "" ∨ PlainLine s := by
  have hcurrent : PlainLine ("- **Current PR scope (authoritative):** " ++ basePart ++ " → head " ++ codeSpan head
      ++ ". The final verdict and summary must describe this full range — the pull request as it would merge at the current head.") := by
    refine (((PlainLine.append ?_ hbase).append (by decide)).append (not_mem_codeSpan hhead)).append ?_
    · apply plainLine_ofList <;> decide +kernel
    · apply not_mem_ofList
      decide +kernel
  have hreview : PlainLine ("- **Prior review:** the previous managed review covered head " ++ codeSpan prior ++ ". The delta "
      ++ codeSpan prior ++ " → " ++ codeSpan head
      ++ " identifies the newly changed portion since that review. The delta only prioritizes inspection; it never redefines the change being approved or rejected.") := by
    refine (((((PlainLine.append ?_ (not_mem_codeSpan hprior)).append (by decide)).append (not_mem_codeSpan hprior)).append
      (by decide)).append (not_mem_codeSpan hhead)).append ?_
    · apply plainLine_ofList <;> decide +kernel
    · apply not_mem_ofList
      decide +kernel
  intro s hs
  simp only [scopeHead, mem_cons, not_mem_nil, or_false] at hs
  rcases hs with rfl | rfl | rfl | rfl | rfl | rfl | rfl | rfl | rfl
  · exact .inr (by apply plainLine_ofList <;> decide +kernel)
  · exact .inl rfl
  · exact .inr (by apply plainLine_ofList <;> decide +kernel)
  · exact .inl rfl
  · exact .inr hcurrent
  · exact .inr hreview
  · exact .inl rfl
  · exact .inr (by apply plainLine_ofList <;> decide +kernel)
  · exact .inl rfl

theorem plain_scopeRules : ∀ s ∈ scopeRules, s = "" ∨ PlainLine s := by
  intro s hs
  simp only [scopeRules, mem_cons, not_mem_nil, or_false] at hs
  rcases hs with rfl | rfl | rfl | rfl | rfl | rfl
  · exact .inl rfl
  · exact .inr (by apply plainLine_ofList <;> decide +kernel)
  · exact .inl rfl
  · exact .inr (by apply plainLine_ofList <;> decide +kernel)
  · exact .inr (by apply plainLine_ofList <;> decide +kernel)
  · exact .inr (by apply plainLine_ofList <;> decide +kernel)

theorem linesOf_empty : linesOf "" = [[]] := by simp [linesOf]

theorem closed_deltaList (title : String) {entries : List String} (more : Bool) (htitle : '\n' ∉ title.toList)
    (h : ∀ s ∈ entries, '\n' ∉ s.toList) :
    FencesClosed ((deltaList title entries more).flatMap linesOf) (fenceBodies entries) := by
  unfold deltaList
  split
  · next hnil =>
    rw [hnil]
    exact .nil
  · next hne =>
    have hmore : PlainLine ("- " ++ title ++ " (first " ++ toString entries.length ++ " of more):") :=
      (((PlainLine.append (s := "- ") ⟨by decide, by decide⟩ htitle).append (by decide)).append (not_mem_toString _)).append
        (by decide)
    have hall : PlainLine ("- " ++ title ++ " (" ++ toString entries.length ++ "):") :=
      (((PlainLine.append (s := "- ") ⟨by decide, by decide⟩ htitle).append (by decide)).append (not_mem_toString _)).append
        (by decide)
    have hline : PlainLine (if more then "- " ++ title ++ " (first " ++ toString entries.length ++ " of more):"
        else "- " ++ title ++ " (" ++ toString entries.length ++ "):") := by
      split
      · exact hmore
      · exact hall
    rw [flatMap_cons, flatMap_cons, linesOf_plain hline.single, linesOf_empty, singleton_append,
      singleton_append]
    exact .plain hline.not_opensFence (.plain not_opensFence_nil (closed_fencedList hne h))

/-- What a frame lists of the delta. -/
def listed (resolved : Option ReReviewScopeDelta) (listLimit : Nat) : List DeltaCommit × List String :=
  match resolved with
  | none => ([], [])
  | some delta =>
    if delta.treeUnchanged then ([], []) else (delta.commits.take listLimit, delta.files.take listLimit)

/-- The entries of a delta are lines. -/
structure PlainEntries (delta : ReReviewScopeDelta) : Prop where
  commits : ∀ commit ∈ delta.commits, '\n' ∉ (commitEntry commit).toList
  files : ∀ name ∈ delta.files, '\n' ∉ name.toList

theorem closed_deltaLines {resolved : Option ReReviewScopeDelta} (h : ∀ delta ∈ resolved, PlainEntries delta) (listLimit : Nat) :
    FencesClosed ((deltaLines resolved listLimit).flatMap linesOf)
      (fenceBodies ((listed resolved listLimit).1.map commitEntry) ++ fenceBodies (listed resolved listLimit).2) := by
  have hnone : ∀ line, PlainLine line → FencesClosed ([line].flatMap linesOf) [] := fun line hline =>
    closed_plain fun s hs => .inr (mem_singleton.mp hs ▸ hline)
  cases resolved with
  | none => exact hnone _ (by apply plainLine_ofList <;> decide +kernel)
  | some delta =>
    simp only [deltaLines, listed]
    split
    · exact hnone _ (by apply plainLine_ofList <;> decide +kernel)
    · split
      · next hzero =>
        rw [hzero, take_zero, take_zero]
        exact hnone _ (by apply plainLine_ofList <;> decide +kernel)
      · rw [flatMap_append, flatMap_append]
        have hcommits : ∀ s ∈ (delta.commits.take listLimit).map commitEntry, '\n' ∉ s.toList := by
          intro s hs
          obtain ⟨commit, hcommit, rfl⟩ := mem_map.mp hs
          exact (h delta rfl).commits commit (mem_of_mem_take hcommit)
        have hfiles : ∀ name ∈ delta.files.take listLimit, '\n' ∉ name.toList := fun name hname =>
          (h delta rfl).files name (mem_of_mem_take hname)
        have hrest : FencesClosed ((if decide ((delta.commits.take listLimit).length < delta.commits.length) ||
            decide ((delta.files.take listLimit).length < delta.files.length) || delta.commitsTruncated ||
            delta.filesTruncated then [truncatedLine] else []).flatMap linesOf) [] := by
          split
          · exact hnone _ (by apply plainLine_ofList <;> decide +kernel)
          · exact .nil
        rw [← append_nil (fenceBodies _ ++ fenceBodies _)]
        exact FencesClosed.append ((closed_deltaList "Commits" _ (by decide) hcommits).append
          (closed_deltaList "Changed files" _ (by decide) hfiles)) hrest

theorem linesOf_scopeFrame (basePart prior head : String) (resolved : Option ReReviewScopeDelta) (listLimit : Nat) :
    linesOf (scopeFrame basePart prior head resolved listLimit) =
      (scopeHead basePart prior head ++ deltaLines resolved listLimit ++ scopeRules).flatMap linesOf ++ [[]] :=
  linesOf_joined (by simp [scopeHead])

/-- A frame closes its fences, and has what it lists in them. -/
theorem closed_scopeFrame (hbase : '\n' ∉ basePart.toList) (hprior : '\n' ∉ prior.toList)
    (hhead : '\n' ∉ head.toList) {resolved : Option ReReviewScopeDelta} (h : ∀ delta ∈ resolved, PlainEntries delta)
    (listLimit : Nat) : FencesClosed (linesOf (scopeFrame basePart prior head resolved listLimit))
      (fenceBodies ((listed resolved listLimit).1.map commitEntry) ++ fenceBodies (listed resolved listLimit).2) := by
  rw [linesOf_scopeFrame, flatMap_append, flatMap_append]
  have hall := (((closed_plain (plain_scopeHead hbase hprior hhead)).append (closed_deltaLines h listLimit)).append
    (closed_plain plain_scopeRules)).append (.plain not_opensFence_nil .nil)
  simpa using hall

/-! ## The size of the smallest frame -/

theorem utf8ByteSize_codeSpan (s : String) : (codeSpan s).utf8ByteSize = s.utf8ByteSize + 2 := by
  rw [codeSpan, String.utf8ByteSize_append, String.utf8ByteSize_append, utf8ByteSize_backticks]
  omega

theorem size_scopeHead (hbase : basePart.utf8ByteSize ≤ 71) (hprior : prior.utf8ByteSize ≤ 64)
    (hhead : head.utf8ByteSize ≤ 64) : ((scopeHead basePart prior head).map fun s => s.utf8ByteSize + 1).sum ≤ 900 := by
  have hsizes : "# Re-Review Scope".utf8ByteSize = 17 ∧
      "This is a re-review. Two scopes are tracked separately:".utf8ByteSize = 55 ∧
      "- **Current PR scope (authoritative):** ".utf8ByteSize = 40 ∧ " → head ".utf8ByteSize = 10 ∧
      ". The final verdict and summary must describe this full range — the pull request as it would merge at the current head.".utf8ByteSize
        = 121 := by
    refine ⟨?_, ?_, ?_, ?_, ?_⟩ <;> apply utf8ByteSize_ofList_eq <;> decide +kernel
  have hreview : "- **Prior review:** the previous managed review covered head ".utf8ByteSize = 61 ∧
      ". The delta ".utf8ByteSize = 12 ∧ " → ".utf8ByteSize = 5 ∧
      " identifies the newly changed portion since that review. The delta only prioritizes inspection; it never redefines the change being approved or rejected.".utf8ByteSize
        = 153 ∧ "Delta since the previous reviewed head:".utf8ByteSize = 39 := by
    refine ⟨?_, ?_, ?_, ?_, ?_⟩ <;> apply utf8ByteSize_ofList_eq <;> decide +kernel
  obtain ⟨h1, h2, h3, h4, h5⟩ := hsizes
  obtain ⟨h6, h7, h8, h9, h10⟩ := hreview
  simp only [scopeHead, map_cons, map_nil, sum_cons, sum_nil, String.utf8ByteSize_append,
    utf8ByteSize_codeSpan, String.utf8ByteSize_empty, h1, h2, h3, h4, h5, h6, h7, h8, h9, h10]
  omega

theorem size_scopeRules : (scopeRules.map fun s => s.utf8ByteSize + 1).sum = 490 := by
  have hsizes : "Rules for this re-review:".utf8ByteSize = 25 ∧
      "- Version and dependency evidence is anchored to the full current PR range (base→head); the delta only identifies which portion is newly introduced since the previous review.".utf8ByteSize
        = 176 ∧
      "- Do not manufacture findings for portions unchanged since the previous reviewed head merely because the branch moved.".utf8ByteSize
        = 118 ∧
      "- Prior review findings are retained, resolved, or superseded against current-head evidence — restate a prior finding only when the current head still warrants it.".utf8ByteSize
        = 165 := by
    refine ⟨?_, ?_, ?_, ?_⟩ <;> apply utf8ByteSize_ofList_eq <;> decide +kernel
  obtain ⟨h1, h2, h3, h4⟩ := hsizes
  simp only [scopeRules, map_cons, map_nil, sum_cons, sum_nil, String.utf8ByteSize_empty, h1, h2, h3, h4]
  rfl

theorem size_deltaLines_zero (resolved : Option ReReviewScopeDelta) :
    ((deltaLines resolved 0).map fun s => s.utf8ByteSize + 1).sum ≤ 157 := by
  have hsizes : notEnumeratedLine.utf8ByteSize = 156 ∧ treeUnchangedLine.utf8ByteSize = 102 ∧
      omittedLine.utf8ByteSize = 95 := by
    refine ⟨?_, ?_, ?_⟩ <;> apply utf8ByteSize_ofList_eq <;> decide +kernel
  obtain ⟨h1, h2, h3⟩ := hsizes
  cases resolved with
  | none => simp [deltaLines, h1]
  | some delta =>
    simp only [deltaLines]
    split
    · simp [h2]
    · simp [h3]

/-- Without its lists a section fits. -/
theorem size_scopeFrame_zero (hbase : basePart.utf8ByteSize ≤ 71)
    (hprior : prior.utf8ByteSize ≤ 64) (hhead : head.utf8ByteSize ≤ 64) (resolved : Option ReReviewScopeDelta) :
    (scopeFrame basePart prior head resolved 0).utf8ByteSize ≤ MAX_SECTION_BYTES := by
  have hmax : MAX_SECTION_BYTES = 4096 := rfl
  have h := size_scopeHead hbase hprior hhead
  have h' := size_deltaLines_zero resolved
  have h'' := size_scopeRules
  rw [scopeFrame, utf8ByteSize_joined (by simp [scopeHead]), map_append, map_append, sum_append, sum_append,
    hmax]
  omega

/-- The section is one of the frames, and within the limit when the smallest one is. -/
theorem shrinkFrame_spec {frame : Nat → String} (h : (frame 0).utf8ByteSize ≤ MAX_SECTION_BYTES) (listLimit : Nat) :
    ∃ limit, shrinkFrame frame listLimit = frame limit ∧ (frame limit).utf8ByteSize ≤ MAX_SECTION_BYTES := by
  fun_induction shrinkFrame frame listLimit with
  | case1 listLimit hfits => exact ⟨listLimit, rfl, hfits⟩
  | case2 listLimit hfits hpos ih => exact ih
  | case3 listLimit hfits hzero =>
    obtain rfl : listLimit = 0 := by omega
    exact absurd h hfits

/-! ## The delta -/

/-- The names that a probe printed. -/
def printedNames (outcome : GitOutcome) : List String :=
  ((outcome.stdout.toList.splitOn (Char.ofNat 0)).map String.ofList).filter (· ≠ "")

theorem rawFiles_of_complete {outcome : GitOutcome} (h : outcome.truncated = false) : rawFiles outcome = printedNames outcome := by
  simp [rawFiles, printedNames, h]

/-- The commits that the log names. -/
def namedCommits (outcome : GitOutcome) : List DeltaCommit := (rawRecords outcome).filterMap commitOf

theorem readCommits_eq (records : List (List Char)) {commits : List DeltaCommit} (h : commits.length ≤ MAX_DELTA_COMMITS) :
    readCommits records commits =
      ((commits ++ (records.filterMap commitOf).filter isListable).take MAX_DELTA_COMMITS,
        decide (MAX_DELTA_COMMITS < (commits ++ (records.filterMap commitOf).filter isListable).length)) := by
  fun_induction readCommits records commits with
  | case1 commits => simp [take_of_length_le h, Nat.not_lt.mpr h]
  | case2 record records commits commit hcommit hlistable hfull =>
    have hlength : commits.length = MAX_DELTA_COMMITS := Nat.le_antisymm h hfull
    rw [filterMap_cons_some hcommit, filter_cons_of_pos hlistable, ← hlength, take_left]
    simp
  | case3 record records commits commit hcommit hlistable hroom ih =>
    rw [ih (by rw [length_append, length_singleton]; omega), filterMap_cons_some hcommit,
      filter_cons_of_pos hlistable, append_assoc, singleton_append]
  | case4 record records commits commit hcommit hlistable ih =>
    rw [ih h, filterMap_cons_some hcommit, filter_cons_of_neg hlistable]
  | case5 record records commits hcommit ih => rw [ih h, filterMap_cons_none hcommit]

theorem isSha_of_commitOf {record : List Char} (h : commitOf record = some commit) :
    isSha commit.sha = true := by
  unfold commitOf at h
  split at h
  · dsimp only at h
    split at h
    · cases h
    · next hvalid =>
      obtain rfl := Option.some.inj h
      rw [not_or, Bool.not_eq_false] at hvalid
      exact hvalid.2
  · cases h

theorem not_mem_of_clean (h : hasControlChar s = false) : '\n' ∉ s.toList := by
  intro hmem
  have hcontrol : hasControlChar s = true := any_eq_true.mpr ⟨'\n', hmem, by decide⟩
  rw [h] at hcontrol
  cases hcontrol

theorem not_mem_commitEntry (hsha : isSha commit.sha = true) (h : isListable commit = true) :
    '\n' ∉ (commitEntry commit).toList := by
  rw [isListable, Bool.and_eq_true, Bool.not_eq_true'] at h
  exact not_mem_append (not_mem_append (not_mem_of_isSha hsha) (by decide)) (not_mem_of_clean h.2)

/-- What the delta of probes that all succeeded is made of. -/
theorem computeReReviewDelta_ok {probes : Probes} {priorHeadSha headSha : String} (hprior : isSha (normalizeSha priorHeadSha) = true)
    (hhead : isSha (normalizeSha headSha) = true) (hne : normalizeSha priorHeadSha ≠ normalizeSha headSha)
    (hpresent : probes.present.ok = true) (hfiles : probes.files.ok = true) (hcommits : probes.commits.ok = true) :
    computeReReviewDelta probes priorHeadSha headSha =
      { priorHeadSha := normalizeSha priorHeadSha
        headSha := normalizeSha headSha
        enumerated := true
        treeUnchanged := (rawFiles probes.files).isEmpty
        commits := ((namedCommits probes.commits).filter isListable).take MAX_DELTA_COMMITS
        commitsTruncated := decide (MAX_DELTA_COMMITS < ((namedCommits probes.commits).filter isListable).length)
        files := ((rawFiles probes.files).filter fun name => !hasControlChar name).take MAX_DELTA_FILES
        filesTruncated := probes.files.truncated || decide
          ((((rawFiles probes.files).filter fun name => !hasControlChar name).take MAX_DELTA_FILES).length
            < (rawFiles probes.files).length) } := by
  have hread := @readCommits_eq (rawRecords probes.commits) [] (Nat.zero_le _)
  rw [nil_append] at hread
  simp only [computeReReviewDelta, hprior, hhead, hne, hpresent, hfiles, hcommits, hread, namedCommits, Bool.true_eq_false, or_self,
    if_false]
  rfl

theorem computeReReviewDelta_failed {probes : Probes} {priorHeadSha headSha : String}
    (h : ¬ (probes.present.ok = true ∧ probes.files.ok = true ∧ probes.commits.ok = true)) :
    computeReReviewDelta probes priorHeadSha headSha = emptyDelta (normalizeSha priorHeadSha) (normalizeSha headSha) := by
  simp only [computeReReviewDelta]
  split
  · rfl
  · split
    · rfl
    · next hpresent =>
      split
      · rfl
      · next hfiles =>
        split
        · rfl
        · next hcommits =>
          rw [Bool.not_eq_false] at hpresent hfiles hcommits
          exact absurd ⟨hpresent, hfiles, hcommits⟩ h

/-! ## The promise -/

/-- Some name of the listing is not among the files, or the listing is not complete. -/
def FileLeftOut (outcome : GitOutcome) (files : List String) : Prop :=
  outcome.truncated = true ∨ ∃ name ∈ printedNames outcome, name ∉ files

/-- Some commit of the log is not among the commits, or the log is not complete. -/
def CommitLeftOut (outcome : GitOutcome) (commits : List DeltaCommit) : Prop :=
  outcome.truncated = true ∨ ∃ commit ∈ namedCommits outcome, commit ∉ commits

def disclosures : List String := [notEnumeratedLine, treeUnchangedLine, omittedLine, truncatedLine]

/-- The section of the delta of the probes. -/
def sectionOf (probes : Probes) (priorHeadSha headSha baseSha : String) : String :=
  buildReReviewScopeMd (some (computeReReviewDelta probes priorHeadSha headSha)) priorHeadSha headSha baseSha

/-- The promise of the scope: the delta flags what it leaves out, and the section is within the limit, has what it lists in
closed fences, and says when it leaves something out. -/
structure ScopeHolds (probes : Probes) (priorHeadSha headSha baseSha : String) : Prop where
  unchanged : (computeReReviewDelta probes priorHeadSha headSha).treeUnchanged = true →
    probes.files.ok = true ∧ probes.files.truncated = false ∧ printedNames probes.files = []
  files : (computeReReviewDelta probes priorHeadSha headSha).enumerated = true →
    FileLeftOut probes.files (computeReReviewDelta probes priorHeadSha headSha).files →
    (computeReReviewDelta probes priorHeadSha headSha).filesTruncated = true
  commits : (computeReReviewDelta probes priorHeadSha headSha).enumerated = true →
    CommitLeftOut probes.commits (computeReReviewDelta probes priorHeadSha headSha).commits →
    (computeReReviewDelta probes priorHeadSha headSha).commitsTruncated = true
  size : (sectionOf probes priorHeadSha headSha baseSha).utf8ByteSize ≤ MAX_SECTION_BYTES
  lists : ∃ commits files,
    FencesClosed (linesOf (sectionOf probes priorHeadSha headSha baseSha))
      (fenceBodies (commits.map commitEntry) ++ fenceBodies files) ∧
    commits <+: (computeReReviewDelta probes priorHeadSha headSha).commits ∧
    files <+: (computeReReviewDelta probes priorHeadSha headSha).files ∧
    ((computeReReviewDelta probes priorHeadSha headSha).enumerated = false ∨ FileLeftOut probes.files files ∨
        CommitLeftOut probes.commits commits →
      ∃ line ∈ disclosures, line.toList ∈ linesOf (sectionOf probes priorHeadSha headSha baseSha))

/-- Nothing is lost without a flag: a capped listing has a complete name, and a log that is complete names only commits that
are listed, or has more of those than the cap. -/
structure FlagsLosses (probes : Probes) : Prop where
  files : probes.files.truncated = true → rawFiles probes.files ≠ []
  commits : MAX_DELTA_COMMITS < ((namedCommits probes.commits).filter isListable).length ∨
    (probes.commits.truncated = false ∧ ∀ commit ∈ namedCommits probes.commits, isListable commit = true)

section

variable {probes : Probes} {priorHeadSha headSha : String}

theorem plainEntries_delta : PlainEntries (computeReReviewDelta probes priorHeadSha headSha) := by
  by_cases hok : probes.present.ok = true ∧ probes.files.ok = true ∧ probes.commits.ok = true
  · simp only [computeReReviewDelta]
    split
    · exact ⟨nofun, nofun⟩
    · split
      · exact ⟨nofun, nofun⟩
      · split
        · exact ⟨nofun, nofun⟩
        · split
          · exact ⟨nofun, nofun⟩
          · rw [@readCommits_eq (rawRecords probes.commits) [] (Nat.zero_le _), nil_append]
            refine ⟨fun commit hcommit => ?_, fun name hname => ?_⟩
            · obtain ⟨hnamed, hlistable⟩ := mem_filter.mp (mem_of_mem_take hcommit)
              obtain ⟨record, -, hrecord⟩ := mem_filterMap.mp hnamed
              exact not_mem_commitEntry (isSha_of_commitOf hrecord) hlistable
            · have hclean := (mem_filter.mp (mem_of_mem_take hname)).2
              exact not_mem_of_clean (by simpa using hclean)
  · rw [computeReReviewDelta_failed hok]
    exact ⟨nofun, nofun⟩

/-- Names that are left out of the files have their flag. -/
theorem filesTruncated_of_leftOut (hprior : isSha (normalizeSha priorHeadSha) = true)
    (hhead : isSha (normalizeSha headSha) = true) (hne : normalizeSha priorHeadSha ≠ normalizeSha headSha)
    (hpresent : probes.present.ok = true) (hfiles : probes.files.ok = true) (hcommits : probes.commits.ok = true)
    (h : FileLeftOut probes.files (computeReReviewDelta probes priorHeadSha headSha).files) :
    (computeReReviewDelta probes priorHeadSha headSha).filesTruncated = true := by
  rw [computeReReviewDelta_ok hprior hhead hne hpresent hfiles hcommits] at h ⊢
  dsimp only at h ⊢
  cases htruncated : probes.files.truncated with
  | true => rfl
  | false =>
    rw [Bool.false_or, decide_eq_true_eq]
    rcases h with h | ⟨name, hname, hmissing⟩
    · rw [htruncated] at h
      cases h
    · rw [← rawFiles_of_complete htruncated] at hname
      by_contra hall
      have hsub : (((rawFiles probes.files).filter fun name => !hasControlChar name).take MAX_DELTA_FILES).Sublist
          (rawFiles probes.files) := (take_sublist _ _).trans filter_sublist
      rw [hsub.eq_of_length_le (by omega)] at hmissing
      exact hmissing hname

/-- The flag of the commits is right exactly when the log lost none without it. -/
theorem commitsFlag_iff (hprior : isSha (normalizeSha priorHeadSha) = true)
    (hhead : isSha (normalizeSha headSha) = true) (hne : normalizeSha priorHeadSha ≠ normalizeSha headSha)
    (hpresent : probes.present.ok = true) (hfiles : probes.files.ok = true) (hcommits : probes.commits.ok = true) :
    (CommitLeftOut probes.commits (computeReReviewDelta probes priorHeadSha headSha).commits →
      (computeReReviewDelta probes priorHeadSha headSha).commitsTruncated = true) ↔
    (MAX_DELTA_COMMITS < ((namedCommits probes.commits).filter isListable).length ∨
      (probes.commits.truncated = false ∧ ∀ commit ∈ namedCommits probes.commits, isListable commit = true)) := by
  rw [computeReReviewDelta_ok hprior hhead hne hpresent hfiles hcommits]
  dsimp only
  rw [decide_eq_true_eq]
  constructor
  · intro h
    by_contra hcondition
    rw [not_or, not_and] at hcondition
    obtain ⟨hroom, hlost⟩ := hcondition
    refine hroom (h ?_)
    cases htruncated : probes.commits.truncated with
    | true => exact .inl htruncated
    | false =>
      obtain ⟨commit, hcommit, hunlisted⟩ : ∃ commit ∈ namedCommits probes.commits, isListable commit ≠ true := by
        simpa using hlost htruncated
      exact .inr ⟨commit, hcommit, fun hmem => hunlisted (mem_filter.mp (mem_of_mem_take hmem)).2⟩
  · rintro (hfull | ⟨hcomplete, hall⟩) hlost
    · exact hfull
    · by_contra hroom
      rcases hlost with htruncated | ⟨commit, hcommit, hmissing⟩
      · rw [hcomplete] at htruncated
        cases htruncated
      · rw [take_of_length_le (by omega)] at hmissing
        exact hmissing (mem_filter.mpr ⟨hcommit, hall commit hcommit⟩)

/-- A tree is said to be unchanged only for a complete listing without names, when a capped one has a complete name. -/
theorem unchanged_of_flagsLosses (hprior : isSha (normalizeSha priorHeadSha) = true)
    (hhead : isSha (normalizeSha headSha) = true) (hne : normalizeSha priorHeadSha ≠ normalizeSha headSha)
    (hpresent : probes.present.ok = true) (hfiles : probes.files.ok = true) (hcommits : probes.commits.ok = true) :
    ((computeReReviewDelta probes priorHeadSha headSha).treeUnchanged = true →
      probes.files.ok = true ∧ probes.files.truncated = false ∧ printedNames probes.files = []) ↔
    (probes.files.truncated = true → rawFiles probes.files ≠ []) := by
  rw [computeReReviewDelta_ok hprior hhead hne hpresent hfiles hcommits]
  simp only [List.isEmpty_iff]
  constructor
  · intro h htruncated hnil
    have hcomplete := (h hnil).2.1
    rw [htruncated] at hcomplete
    cases hcomplete
  · intro h hnil
    have hcomplete : probes.files.truncated = false := by
      rw [← Bool.not_eq_true]
      exact fun htruncated => h htruncated hnil
    exact ⟨hfiles, hcomplete, rawFiles_of_complete hcomplete ▸ hnil⟩

/-- A frame says when its lists are not the whole delta. -/
theorem disclosed (resolved : Option ReReviewScopeDelta) (listLimit : Nat)
    (h : ∀ delta, resolved = some delta → ¬ delta.treeUnchanged = true → delta.commitsTruncated = true ∨
      delta.filesTruncated = true ∨ (delta.commits.take listLimit).length < delta.commits.length ∨ (delta.files.take listLimit).length < delta.files.length) :
    ∃ line ∈ disclosures, line ∈ deltaLines resolved listLimit := by
  cases resolved with
  | none => exact ⟨notEnumeratedLine, mem_cons_self, mem_cons_self⟩
  | some delta =>
    simp only [deltaLines]
    split
    · exact ⟨treeUnchangedLine, by simp [disclosures], mem_cons_self⟩
    · next hchanged =>
      split
      · exact ⟨omittedLine, by simp [disclosures], mem_cons_self⟩
      · refine ⟨truncatedLine, by simp [disclosures], mem_append_right _ ?_⟩
        rw [if_pos]
        · exact mem_cons_self
        · simp only [Bool.or_eq_true, decide_eq_true_eq]
          rcases h delta rfl hchanged with h | h | h | h
          · exact .inl (.inr h)
          · exact .inr h
          · exact .inl (.inl (.inl h))
          · exact .inl (.inl (.inr h))

theorem utf8ByteSize_of_isSha {s : String} (h : isSha s = true) : s.utf8ByteSize ≤ 64 := by
  simp only [isSha, isRun, Bool.and_eq_true, all_eq_true, decide_eq_true_eq] at h
  obtain ⟨⟨-, hlength⟩, hall⟩ := h
  have hone : ∀ cs : List Char, (∀ c ∈ cs, isLowerHex c = true) → String.utf8Len cs = cs.length := by
    intro cs hcs
    induction cs with
    | nil => rfl
    | cons c cs ih =>
      have hc : c.utf8Size = 1 := by
        have hhex := hcs c mem_cons_self
        simp only [isLowerHex, isDigit, Bool.or_eq_true, Bool.and_eq_true, decide_eq_true_eq] at hhex
        rw [Char.utf8Size_eq_one_iff]
        rcases hhex with h | h
        · exact UInt32.le_trans (show c.val ≤ '9'.val from h.2) (by decide)
        · exact UInt32.le_trans (show c.val ≤ 'f'.val from h.2) (by decide)
      rw [String.utf8Len_cons, ih fun d hd => hcs d (mem_cons_of_mem _ hd), hc, length_cons]
  rw [← String.ofList_toList (s := s), String.utf8ByteSize_ofList, hone _ hall]
  exact hlength

/-- The section of a delta is a frame of it that fits. -/
theorem exists_frame (hprior : isSha (normalizeSha priorHeadSha) = true) (hhead : isSha (normalizeSha headSha) = true)
    (hne : normalizeSha priorHeadSha ≠ normalizeSha headSha) (baseSha : String) :
    ∃ basePart listLimit, '\n' ∉ basePart.toList ∧
      sectionOf probes priorHeadSha headSha baseSha = scopeFrame basePart (normalizeSha priorHeadSha) (normalizeSha headSha)
        ((some (computeReReviewDelta probes priorHeadSha headSha)).filter fun delta => delta.enumerated) listLimit ∧
      (sectionOf probes priorHeadSha headSha baseSha).utf8ByteSize ≤ MAX_SECTION_BYTES := by
  have hsame : ((some (computeReReviewDelta probes priorHeadSha headSha)).filter fun delta =>
      delta.enumerated && delta.priorHeadSha == normalizeSha priorHeadSha && delta.headSha == normalizeSha headSha) =
      (some (computeReReviewDelta probes priorHeadSha headSha)).filter fun delta => delta.enumerated := by
    by_cases hok : probes.present.ok = true ∧ probes.files.ok = true ∧ probes.commits.ok = true
    · rw [computeReReviewDelta_ok hprior hhead hne hok.1 hok.2.1 hok.2.2]
      simp only [Option.filter_some, beq_self_eq_true, Bool.and_true]
    · rw [computeReReviewDelta_failed hok]
      rfl
  have hsection : sectionOf probes priorHeadSha headSha baseSha = shrinkFrame
      (scopeFrame (if isSha (normalizeSha baseSha) then "base " ++ codeSpan (normalizeSha baseSha) else "the configured base")
        (normalizeSha priorHeadSha) (normalizeSha headSha)
        ((some (computeReReviewDelta probes priorHeadSha headSha)).filter fun delta => delta.enumerated)) MAX_DELTA_FILES := by
    rw [← hsame]
    simp only [sectionOf, buildReReviewScopeMd, hprior, hhead, hne, Bool.true_eq_false, or_self, if_false]
  have hbase : '\n' ∉ (if isSha (normalizeSha baseSha) then "base " ++ codeSpan (normalizeSha baseSha)
      else "the configured base").toList ∧
      (if isSha (normalizeSha baseSha) then "base " ++ codeSpan (normalizeSha baseSha)
        else "the configured base").utf8ByteSize ≤ 71 := by
    split
    · next hsha =>
      have hword : "base ".utf8ByteSize = 5 := by decide
      have hsize := utf8ByteSize_of_isSha hsha
      refine ⟨not_mem_append (by decide) (not_mem_codeSpan (not_mem_of_isSha hsha)), ?_⟩
      rw [String.utf8ByteSize_append, utf8ByteSize_codeSpan, hword]
      omega
    · exact ⟨by decide, by decide⟩
  obtain ⟨limit, hframe, hfits⟩ := shrinkFrame_spec (size_scopeFrame_zero hbase.2 (utf8ByteSize_of_isSha hprior)
    (utf8ByteSize_of_isSha hhead) ((some (computeReReviewDelta probes priorHeadSha headSha)).filter fun delta =>
      delta.enumerated)) MAX_DELTA_FILES
  exact ⟨_, limit, hbase.1, hsection.trans hframe, by rw [hsection, hframe]; exact hfits⟩

/-- The part of the promise that is always kept: the size, the fences, and the words for what the lists leave out when the
flags of the delta are right. -/
theorem lists_of_flags (hprior : isSha (normalizeSha priorHeadSha) = true) (hhead : isSha (normalizeSha headSha) = true)
    (hne : normalizeSha priorHeadSha ≠ normalizeSha headSha) (baseSha : String)
    (hfiles : (computeReReviewDelta probes priorHeadSha headSha).enumerated = true →
      FileLeftOut probes.files (computeReReviewDelta probes priorHeadSha headSha).files →
      (computeReReviewDelta probes priorHeadSha headSha).filesTruncated = true)
    (hcommits : (computeReReviewDelta probes priorHeadSha headSha).enumerated = true →
      CommitLeftOut probes.commits (computeReReviewDelta probes priorHeadSha headSha).commits →
      (computeReReviewDelta probes priorHeadSha headSha).commitsTruncated = true) :
    ∃ commits files,
      FencesClosed (linesOf (sectionOf probes priorHeadSha headSha baseSha))
        (fenceBodies (commits.map commitEntry) ++ fenceBodies files) ∧
      commits <+: (computeReReviewDelta probes priorHeadSha headSha).commits ∧
      files <+: (computeReReviewDelta probes priorHeadSha headSha).files ∧
      ((computeReReviewDelta probes priorHeadSha headSha).enumerated = false ∨ FileLeftOut probes.files files ∨
          CommitLeftOut probes.commits commits →
        ∃ line ∈ disclosures, line.toList ∈ linesOf (sectionOf probes priorHeadSha headSha baseSha)) := by
  obtain ⟨basePart, listLimit, hbase, hsection, -⟩ := @exists_frame probes _ _ hprior hhead hne baseSha
  have hplain := @plainEntries_delta probes priorHeadSha headSha
  generalize computeReReviewDelta probes priorHeadSha headSha = delta at *
  have hentries : ∀ d ∈ (some delta).filter fun delta => delta.enumerated, PlainEntries d := by
    intro d hd
    obtain ⟨hd, -⟩ := Option.filter_eq_some_iff.mp (Option.mem_def.mp hd)
    exact Option.some.inj hd ▸ hplain
  have hprefix : (listed ((some delta).filter fun delta => delta.enumerated) listLimit).1 <+: delta.commits ∧
      (listed ((some delta).filter fun delta => delta.enumerated) listLimit).2 <+: delta.files := by
    rw [Option.filter_some]
    split
    · simp only [listed]
      split
      · exact ⟨List.nil_prefix, nil_prefix⟩
      · exact ⟨List.take_prefix _ _, take_prefix _ _⟩
    · exact ⟨List.nil_prefix, nil_prefix⟩
  refine ⟨_, _, hsection ▸ closed_scopeFrame hbase (not_mem_of_isSha hprior) (not_mem_of_isSha hhead) hentries listLimit,
    hprefix.1, hprefix.2, fun hleft => ?_⟩
  have hframe := disclosed ((some delta).filter fun delta => delta.enumerated) listLimit ?_
  · obtain ⟨line, hline, hmem⟩ := hframe
    refine ⟨line, hline, ?_⟩
    have hplainLine : '\n' ∉ line.toList := by
      simp only [disclosures, mem_cons, not_mem_nil, or_false] at hline
      rcases hline with rfl | rfl | rfl | rfl <;> apply not_mem_ofList <;> decide +kernel
    rw [hsection, linesOf_scopeFrame]
    refine mem_append_left _ (mem_flatMap.mpr ⟨line, ?_, ?_⟩)
    · exact mem_append_left _ (mem_append_right _ hmem)
    · rw [linesOf_plain hplainLine]
      exact mem_singleton_self _
  · intro d hd hchanged
    obtain ⟨hd, henumerated⟩ := Option.filter_eq_some_iff.mp hd
    obtain rfl := Option.some.inj hd
    rw [Option.filter_some, if_pos henumerated] at hleft
    simp only [listed, if_neg hchanged] at hleft
    rcases Nat.lt_or_ge (delta.commits.take listLimit).length delta.commits.length with hshrunk | hcommit
    · exact .inr (.inr (.inl hshrunk))
    · rcases Nat.lt_or_ge (delta.files.take listLimit).length delta.files.length with hshrunk | hfile
      · exact .inr (.inr (.inr hshrunk))
      · rw [(take_sublist listLimit delta.commits).eq_of_length_le hcommit,
          (take_sublist listLimit delta.files).eq_of_length_le hfile] at hleft
        rcases hleft with hleft | hleft | hleft
        · rw [henumerated] at hleft
          cases hleft
        · exact .inr (.inl (hfiles henumerated hleft))
        · exact .inl (hcommits henumerated hleft)

/-- The promise is kept exactly when failed probes give no delta, or the flags see every loss. -/
theorem scope_holds_iff (hprior : isSha (normalizeSha priorHeadSha) = true) (hhead : isSha (normalizeSha headSha) = true)
    (hne : normalizeSha priorHeadSha ≠ normalizeSha headSha) (baseSha : String) :
    ScopeHolds probes priorHeadSha headSha baseSha ↔
      (probes.present.ok = true → probes.files.ok = true → probes.commits.ok = true → FlagsLosses probes) := by
  obtain ⟨-, -, -, -, hsize⟩ := @exists_frame probes _ _ hprior hhead hne baseSha
  constructor
  · intro h hpresent hfiles hcommits
    have henumerated : (computeReReviewDelta probes priorHeadSha headSha).enumerated = true := by
      rw [computeReReviewDelta_ok hprior hhead hne hpresent hfiles hcommits]
    exact ⟨(unchanged_of_flagsLosses hprior hhead hne hpresent hfiles hcommits).mp h.unchanged,
      (commitsFlag_iff hprior hhead hne hpresent hfiles hcommits).mp (h.commits henumerated)⟩
  · intro h
    by_cases hok : probes.present.ok = true ∧ probes.files.ok = true ∧ probes.commits.ok = true
    · obtain ⟨hpresent, hfiles, hcommits⟩ := hok
      have hflags := h hpresent hfiles hcommits
      have hfilesFlag := filesTruncated_of_leftOut hprior hhead hne hpresent hfiles hcommits
      have hcommitsFlag := (commitsFlag_iff hprior hhead hne hpresent hfiles hcommits).mpr hflags.commits
      exact ⟨(unchanged_of_flagsLosses hprior hhead hne hpresent hfiles hcommits).mpr hflags.files, fun _ => hfilesFlag,
        fun _ => hcommitsFlag, hsize,
        lists_of_flags hprior hhead hne baseSha (fun _ => hfilesFlag) fun _ => hcommitsFlag⟩
    · have hfailed : computeReReviewDelta probes priorHeadSha headSha = _ := computeReReviewDelta_failed hok
      have hnot : (computeReReviewDelta probes priorHeadSha headSha).enumerated = true → False := by
        rw [hfailed]
        exact nofun
      refine ⟨?_, fun henumerated => (hnot henumerated).elim, fun henumerated => (hnot henumerated).elim, hsize,
        lists_of_flags hprior hhead hne baseSha (fun henumerated => (hnot henumerated).elim)
          fun henumerated => (hnot henumerated).elim⟩
      rw [hfailed]
      exact nofun

end

/-! ## A subject with a tab -/

def tabbedProbes : Probes where
  present := ⟨true, false, ""⟩
  files := ⟨true, false, String.ofList ['a', Char.ofNat 0]⟩
  commits := ⟨true, false, String.ofList (List.replicate 40 'c' ++ [Char.ofNat 0x1F, 'a', '\t', 'b', Char.ofNat 0x1E, '\n'])⟩

theorem scope_holds_of_failed : ScopeHolds ⟨⟨false, false, ""⟩, ⟨true, false, ""⟩, ⟨true, false, ""⟩⟩ "bbbbbbb" "ccccccc" "" :=
  (scope_holds_iff (by decide +kernel) (by decide +kernel) (by decide +kernel) "").mpr (nomatch ·)

/-- A commit whose subject has a tab is left out, and no flag says so. -/
theorem scope_not_holds : ¬ ScopeHolds tabbedProbes "bbbbbbb" "ccccccc" "" := by
  intro h
  have hdelta := @computeReReviewDelta_ok tabbedProbes "bbbbbbb" "ccccccc" (by decide +kernel) (by decide +kernel)
    (by decide +kernel) rfl rfl rfl
  have hrecords : rawRecords tabbedProbes.commits
      = [List.replicate 40 'c' ++ [Char.ofNat 0x1F, 'a', '\t', 'b'], []] := by
    simp only [rawRecords, tabbedProbes, String.toList_ofList]
    decide +kernel
  have hnamed : namedCommits tabbedProbes.commits
      = [⟨String.ofList (List.replicate 40 'c'), String.ofList ['a', '\t', 'b']⟩] := by
    rw [namedCommits, hrecords]
    decide +kernel
  have hlisted : (namedCommits tabbedProbes.commits).filter isListable = [] := by
    rw [hnamed]
    decide +kernel
  have hflag := h.commits (by rw [hdelta]) (.inr ⟨_, hnamed ▸ mem_singleton_self _, by rw [hdelta, hlisted]; exact nofun⟩)
  rw [hdelta, hlisted] at hflag
  cases hflag

end PrReviewer.Context
