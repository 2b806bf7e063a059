import PrReviewer.Js.NumberText
import PrReviewer.Model.PyJson

/-!
# The merge of the findings of the parts

`mergePartitionFindings` of `src/partition/merge.ts` keeps the first of the findings that have one normalized tuple,
and lists for each kept finding the parts that reported its tuple.

- A part has an index of a linearly ordered type `ι`.
- `toLowerCase` is a parameter: nothing here depends on how letters are mapped.

`dedupKey_eq_iff`: the key is injective over the normalized tuples. `mergePartitionFindings_exact`: the merge loses
nothing, and the order of the parts decides only which finding of a tuple is kept, and where.
-/

open Js Js.Number List

namespace PrReviewer.Partition

variable {ι : Type}

/-- A finding in the merge shape; `extras` are the other fields of the raw one. -/
structure PartitionFinding (ι : Type) where
  extras : List (String × Value)
  partition : ι
  file : Option String
  line : Option Number
  severity : String
  title : String

structure Provenance (ι : Type) where
  title : String
  file : Option String
  partitions : List ι

structure MergedFindings (ι : Type) where
  findings : List (PartitionFinding ι)
  duplicates : Nat
  provenance : List (Provenance ι)

/-- The raw findings of a part. -/
structure PartFindings (ι : Type) where
  index : ι
  findings : List Value

/-! ## Normalizing -/

def firstString (record : Value) (keys : List String) : Option String :=
  keys.findSome? fun key => (record.get key).string?.filter fun value => trim value ≠ ""

def firstLine (record : Value) (keys : List String) : Option Number :=
  keys.findSome? fun key => (Model.numeric? (record.get key)).filter fun value => value.isFinite && isInteger value

def normalizeFinding (raw : Value) (index : ι) : Option (PartitionFinding ι) :=
  match raw with
  | .object fields =>
    some
      { extras := fields.filter fun f => f.1 ∉ ["partition", "file", "line", "severity", "title"]
        partition := index
        file := firstString raw ["file", "filename", "path"]
        line := firstLine raw ["line", "line_start", "start_line"]
        severity := (raw.get "severity").string?.getD ""
        title := (firstString raw ["title", "summary", "message"]).getD "" }
  | _ => none

/-! ## Merging -/

section Merge

variable (toLowerCase : String → String)

/-- The line of a finding as JSON. -/
def lineText : Option Number → List Char
  | none => Json.quote ""
  | some line => (numberToString line).toList

def dedupKey (finding : PartitionFinding ι) : String :=
  String.ofList
    ('[' :: (Json.quote (finding.file.getD "") ++ ',' :: (lineText finding.line ++
      ',' :: (Json.quote (toLowerCase finding.severity) ++
      ',' :: (Json.quote (toLowerCase (trim finding.title)) ++ [']'])))))

/-- The variables of the loop. -/
structure Merge (ι : Type) extends MergedFindings ι where
  positionByKey : Map String Nat

variable [LinearOrder ι]

def Provenance.add (index : ι) (entry : Provenance ι) : Provenance ι :=
  if index ∈ entry.partitions then entry else { entry with partitions := entry.partitions ++ [index] }

/-- One finding in the merge shape. -/
def mergeFinding (merge : Merge ι) (finding : PartitionFinding ι) : Merge ι :=
  let key := dedupKey toLowerCase finding
  match merge.positionByKey.get? key with
  | none =>
    { findings := merge.findings ++ [finding]
      duplicates := merge.duplicates
      provenance := merge.provenance ++ [⟨finding.title, finding.file, [finding.partition]⟩]
      positionByKey := merge.positionByKey.set key merge.findings.length }
  | some position =>
    { merge with
      duplicates := merge.duplicates + 1
      provenance := merge.provenance.modify position (Provenance.add finding.partition) }

def mergeRaw (index : ι) (merge : Merge ι) (raw : Value) : Merge ι :=
  match normalizeFinding raw index with
  | none => merge
  | some finding => mergeFinding toLowerCase merge finding

def mergePart (merge : Merge ι) (part : PartFindings ι) : Merge ι :=
  part.findings.foldl (mergeRaw toLowerCase part.index) merge

def mergePartitionFindings (parts : List (PartFindings ι)) : MergedFindings ι :=
  let merge := parts.foldl (mergePart toLowerCase) ⟨⟨[], 0, []⟩, .empty⟩
  { findings := merge.findings
    duplicates := merge.duplicates
    provenance := merge.provenance.map fun entry =>
      { entry with partitions := entry.partitions.insertionSort (· ≤ ·) } }

end Merge

/-! ## What is reported -/

/-- A finding that is an object. -/
def IsObject (raw : Value) : Bool :=
  match raw with
  | .object _ => true
  | _ => false

/-- The object-shaped findings of a part in the merge shape. -/
def PartFindings.reports (part : PartFindings ι) : List (PartitionFinding ι) :=
  part.findings.filterMap fun raw => normalizeFinding raw part.index

def reports (parts : List (PartFindings ι)) : List (PartitionFinding ι) := parts.flatMap PartFindings.reports

/-- The normalized tuples of two findings are equal. -/
structure SameTuple (toLowerCase : String → String) (a b : PartitionFinding ι) : Prop where
  file : a.file = b.file
  line : (a.line == b.line) = true
  severity : toLowerCase a.severity = toLowerCase b.severity
  title : toLowerCase (trim a.title) = toLowerCase (trim b.title)

/-! ## The key -/

/-- What normalizing makes sure of. -/
structure Normal (finding : PartitionFinding ι) : Prop where
  file : finding.file ≠ some ""
  line : ∀ x ∈ finding.line, x.isFinite = true

theorem firstString_ne_empty (record : Value) (keys : List String) : firstString record keys ≠ some "" := by
  intro h
  obtain ⟨key, -, hkey⟩ := List.exists_of_findSome?_eq_some h
  obtain ⟨-, hblank⟩ := Option.filter_eq_some_iff.mp hkey
  exact absurd hblank (by decide)

variable {index : ι} {l l' : Option Number}

theorem normal_normalizeFinding {raw : Value} {finding : PartitionFinding ι}
    (h : normalizeFinding raw index = some finding) : Normal finding ∧ finding.partition = index := by
  unfold normalizeFinding at h
  split at h
  · obtain rfl := Option.some.inj h
    refine ⟨⟨firstString_ne_empty _ _, fun x hx => ?_⟩, rfl⟩
    obtain ⟨key, -, hkey⟩ := List.exists_of_findSome?_eq_some hx
    obtain ⟨-, hfinite⟩ := Option.filter_eq_some_iff.mp hkey
    exact (Bool.and_eq_true_iff.mp hfinite).1
  · cases h

/-- The text of a number does not start with a quote. -/
theorem numberToString_ne_quote {x : Number} (hx : x.isFinite = true) (s : String) (rest rest' : List Char) :
    (numberToString x).toList ++ ',' :: rest ≠ Json.quote s ++ rest' := by
  intro h
  obtain ⟨v, hv, -⟩ := number_numberToString hx
  have hread := hv _ (Json.ends_cons (c := ',') rest (by decide))
  rw [h, Json.quote, cons_append] at hread
  cases hread

theorem lineText_append_inj (hl : ∀ x ∈ l, x.isFinite = true)
    (hl' : ∀ x ∈ l', x.isFinite = true) {rest rest' : List Char}
    (h : lineText l ++ ',' :: rest = lineText l' ++ ',' :: rest') : (l == l') = true ∧ rest = rest' := by
  cases l with
  | none =>
    cases l' with
    | none => exact ⟨rfl, (List.cons.inj (Json.quote_append_inj h).2).2⟩
    | some y => exact absurd h.symm (numberToString_ne_quote (hl' y rfl) _ _ _)
  | some x =>
    cases l' with
    | none => exact absurd h (numberToString_ne_quote (hl x rfl) _ _ _)
    | some y =>
      obtain ⟨v, hv, hx⟩ := number_numberToString (hl x rfl)
      obtain ⟨w, hw, hy⟩ := number_numberToString (hl' y rfl)
      have hends := fun rest => Json.ends_cons (c := ',') rest (by decide)
      have hread := (hv _ (hends rest)).symm.trans ((congrArg Json.number h).trans (hw _ (hends rest')))
      obtain ⟨rfl, hrest⟩ := Prod.mk.inj (Option.some.inj hread)
      exact ⟨isNumber_unique hx hy, (List.cons.inj hrest).2⟩

theorem lineText_congr (hl : ∀ x ∈ l, x.isFinite = true) (hl' : ∀ x ∈ l', x.isFinite = true)
    (h : (l == l') = true) : lineText l = lineText l' := by
  cases l with
  | none => cases l' with
    | none => rfl
    | some y => cases h
  | some x => cases l' with
    | none => cases h
    | some y => rw [lineText, lineText, (numberToString_eq_iff (hl x rfl) (hl' y rfl)).mpr h]

theorem eq_of_getD {o o' : Option String} (ho : o ≠ some "") (ho' : o' ≠ some "") (h : o.getD "" = o'.getD "") :
    o = o' := by
  cases o <;> cases o' <;> grind

/-- The key is injective over the normalized tuples. -/
theorem dedupKey_eq_iff (toLowerCase : String → String) {a b : PartitionFinding ι} (ha : Normal a) (hb : Normal b) :
    dedupKey toLowerCase a = dedupKey toLowerCase b ↔ SameTuple toLowerCase a b := by
  constructor
  · intro h
    have htext := (List.cons.inj (String.ofList_injective h)).2
    obtain ⟨hfile, htext⟩ := Json.quote_append_inj htext
    obtain ⟨hline, htext⟩ := lineText_append_inj ha.line hb.line (List.cons.inj htext).2
    obtain ⟨hseverity, htext⟩ := Json.quote_append_inj htext
    obtain ⟨htitle, -⟩ := Json.quote_append_inj (List.cons.inj htext).2
    exact ⟨eq_of_getD ha.file hb.file hfile, hline, hseverity, htitle⟩
  · rintro ⟨hfile, hline, hseverity, htitle⟩
    rw [dedupKey, dedupKey, hfile, lineText_congr ha.line hb.line hline, hseverity, htitle]

/-! ## The loop -/

section Loop

variable {toLowerCase : String → String}

/-- The entry is that of a kept finding after the findings `rs`. -/
structure Traced (toLowerCase : String → String) (rs : List (PartitionFinding ι)) (finding : PartitionFinding ι)
    (entry : Provenance ι) : Prop where
  title : entry.title = finding.title
  file : entry.file = finding.file
  nodup : entry.partitions.Nodup
  mem_iff : ∀ index, index ∈ entry.partitions ↔
    ∃ other ∈ rs, other.partition = index ∧ dedupKey toLowerCase other = dedupKey toLowerCase finding

/-- What the variables of the loop hold after the findings `rs`. -/
structure Holds (toLowerCase : String → String) (rs : List (PartitionFinding ι)) (merge : Merge ι) : Prop where
  positions : ∀ key position, merge.positionByKey.get? key = some position ↔
    ∃ finding, merge.findings[position]? = some finding ∧ dedupKey toLowerCase finding = key
  kept : merge.findings.Sublist rs
  covered : ∀ finding ∈ rs, ∃ keeper ∈ merge.findings, dedupKey toLowerCase keeper = dedupKey toLowerCase finding
  count : merge.findings.length + merge.duplicates = rs.length
  size : merge.provenance.length = merge.findings.length
  traced : ∀ (position : Nat) finding entry, merge.findings[position]? = some finding →
    merge.provenance[position]? = some entry → Traced toLowerCase rs finding entry

variable {rs : List (PartitionFinding ι)} {finding : PartitionFinding ι}

theorem getElem?_concat_eq_some {α : Type} {xs : List α} {x y : α} {n : Nat} :
    (xs ++ [x])[n]? = some y ↔ xs[n]? = some y ∨ n = xs.length ∧ x = y := by
  rcases lt_trichotomy n xs.length with hlt | rfl | hgt
  · rw [List.getElem?_append_left hlt]
    simp [hlt.ne]
  · simp
  · rw [List.getElem?_eq_none (by simp; omega), List.getElem?_eq_none (by omega)]
    simp [hgt.ne']

/-- A finding with another key changes nothing for an entry. -/
theorem Traced.other {keeper : PartitionFinding ι} {entry : Provenance ι} (h : Traced toLowerCase rs keeper entry)
    (hne : dedupKey toLowerCase keeper ≠ dedupKey toLowerCase finding) :
    Traced toLowerCase (rs ++ [finding]) keeper entry where
  title := h.title
  file := h.file
  nodup := h.nodup
  mem_iff index := by
    rw [h.mem_iff]
    refine exists_congr fun other => ?_
    rw [mem_append, mem_singleton]
    constructor
    · rintro ⟨hother, hrest⟩
      exact ⟨.inl hother, hrest⟩
    · rintro ⟨hother | rfl, hrest⟩
      · exact ⟨hother, hrest⟩
      · exact absurd hrest.2.symm hne

variable {merge : Merge ι}

theorem Holds.fresh (h : Holds toLowerCase rs merge)
    (hkey : merge.positionByKey.get? (dedupKey toLowerCase finding) = none) {keeper : PartitionFinding ι}
    (hkeeper : keeper ∈ merge.findings) : dedupKey toLowerCase keeper ≠ dedupKey toLowerCase finding := by
  intro hsame
  obtain ⟨position, hposition⟩ := mem_iff_getElem?.mp hkeeper
  rw [(h.positions _ position).mpr ⟨keeper, hposition, hsame⟩] at hkey
  cases hkey

theorem Holds.nodup (h : Holds toLowerCase rs merge) : (merge.findings.map (dedupKey toLowerCase)).Nodup := by
  rw [List.nodup_iff_getElem?_ne_getElem?]
  intro i j hij hj hsame
  rw [length_map] at hj
  rw [List.getElem?_map, List.getElem?_map, List.getElem?_eq_getElem (hij.trans hj), List.getElem?_eq_getElem hj,
    Option.map_some, Option.map_some, Option.some.injEq] at hsame
  have hi := (h.positions _ i).mpr ⟨_, List.getElem?_eq_getElem (hij.trans hj), hsame⟩
  have hj := (h.positions _ j).mpr ⟨_, List.getElem?_eq_getElem hj, rfl⟩
  exact hij.ne (Option.some.inj (hi.symm.trans hj))

theorem Holds.mem_keys (h : Holds toLowerCase rs merge) (key : String) :
    key ∈ merge.findings.map (dedupKey toLowerCase) ↔ key ∈ rs.map (dedupKey toLowerCase) := by
  refine ⟨fun hkey => (h.kept.map _).subset hkey, fun hkey => ?_⟩
  obtain ⟨finding, hfinding, rfl⟩ := mem_map.mp hkey
  obtain ⟨keeper, hkeeper, hsame⟩ := h.covered finding hfinding
  exact mem_map.mpr ⟨keeper, hkeeper, hsame⟩

/-- The same findings in another order: the same keys are kept. -/
theorem Holds.perm {rs' : List (PartitionFinding ι)} {merge' : Merge ι} (h : Holds toLowerCase rs merge)
    (h' : Holds toLowerCase rs' merge') (hperm : rs.Perm rs') :
    (merge.findings.map (dedupKey toLowerCase)).Perm (merge'.findings.map (dedupKey toLowerCase)) := by
  rw [perm_ext_iff_of_nodup h.nodup h'.nodup]
  intro key
  rw [h.mem_keys, h'.mem_keys, (hperm.map _).mem_iff]

variable [LinearOrder ι]

/-- A finding with the key of an entry adds its part to it. -/
theorem Traced.add {keeper : PartitionFinding ι} {entry : Provenance ι} (h : Traced toLowerCase rs keeper entry)
    (hkey : dedupKey toLowerCase keeper = dedupKey toLowerCase finding) :
    Traced toLowerCase (rs ++ [finding]) keeper (entry.add finding.partition) := by
  have hmem : ∀ index, (index ∈ entry.partitions ∨ index = finding.partition) ↔
      ∃ other ∈ rs ++ [finding], other.partition = index ∧
        dedupKey toLowerCase other = dedupKey toLowerCase keeper := by
    intro index
    simp only [h.mem_iff, mem_append, mem_singleton, or_and_right, exists_or, exists_eq_left, hkey, and_true,
      eq_comm (a := index)]
  unfold Provenance.add
  split
  · next hold =>
    refine ⟨h.title, h.file, h.nodup, fun index => ?_⟩
    rw [← hmem]
    refine ⟨.inl, fun hindex => hindex.elim id ?_⟩
    rintro rfl
    exact hold
  · next hnew =>
    refine ⟨h.title, h.file, ?_, fun index => ?_⟩
    · exact h.nodup.append (nodup_singleton _) (disjoint_singleton.mpr hnew)
    · rw [← hmem, mem_append, mem_singleton]

/-- A finding whose key is new is kept. -/
theorem Holds.keep (h : Holds toLowerCase rs merge)
    (hkey : merge.positionByKey.get? (dedupKey toLowerCase finding) = none) :
    Holds toLowerCase (rs ++ [finding]) (mergeFinding toLowerCase merge finding) := by
  have hfresh (keeper : PartitionFinding ι) (hkeeper : keeper ∈ merge.findings) :
      dedupKey toLowerCase keeper ≠ dedupKey toLowerCase finding := h.fresh hkey hkeeper
  rw [mergeFinding, hkey]
  refine ⟨fun key position => ?_, h.kept.append_right _, fun other hother => ?_, ?_, ?_,
    fun position keeper entry hkeeper hentry => ?_⟩
  · simp only [Map.get?_set, getElem?_concat_eq_some, or_and_right, exists_or, ← h.positions]
    by_cases hsame : key = dedupKey toLowerCase finding
    · subst hsame
      rw [if_pos rfl, hkey]
      simp [eq_comm]
    · rw [if_neg hsame]
      simp [Ne.symm hsame]
  · rw [mem_append, mem_singleton] at hother
    rcases hother with hother | rfl
    · obtain ⟨keeper, hkeeper, hsame⟩ := h.covered other hother
      exact ⟨keeper, mem_append_left _ hkeeper, hsame⟩
    · exact ⟨other, by simp, rfl⟩
  · have hcount := h.count
    simp only [length_append, length_singleton]
    omega
  · simp [h.size]
  · rw [getElem?_concat_eq_some] at hkeeper hentry
    rcases hkeeper with hkeeper | ⟨rfl, rfl⟩
    · have hlt : position < merge.findings.length := (List.getElem?_eq_some_iff.mp hkeeper).1
      have hold : merge.provenance[position]? = some entry := hentry.resolve_right fun hlast => by
        rw [hlast.1, h.size] at hlt
        exact hlt.false
      exact (h.traced position keeper entry hkeeper hold).other (hfresh keeper (mem_of_getElem? hkeeper))
    · have hlast : (⟨finding.title, finding.file, [finding.partition]⟩ : Provenance ι) = entry := by
        refine (hentry.resolve_left fun hold => ?_).2
        rw [List.getElem?_eq_none h.size.le] at hold
        cases hold
      rw [← hlast]
      refine ⟨rfl, rfl, nodup_singleton _, fun index => ?_⟩
      rw [mem_singleton]
      constructor
      · rintro rfl
        exact ⟨finding, by simp, rfl, rfl⟩
      · rintro ⟨other, hother, hindex, hsame⟩
        rw [mem_append, mem_singleton] at hother
        rcases hother with hother | rfl
        · obtain ⟨keeper, hkeeper, hkeep⟩ := h.covered other hother
          exact absurd (hkeep.trans hsame) (hfresh keeper hkeeper)
        · exact hindex.symm

/-- A finding whose key is there is counted, and its part added. -/
theorem Holds.fold (h : Holds toLowerCase rs merge) {position : Nat}
    (hkey : merge.positionByKey.get? (dedupKey toLowerCase finding) = some position) :
    Holds toLowerCase (rs ++ [finding]) (mergeFinding toLowerCase merge finding) := by
  obtain ⟨keeper, hkeeper, hsame⟩ := (h.positions _ _).mp hkey
  rw [mergeFinding, hkey]
  refine ⟨h.positions, h.kept.trans (sublist_append_left _ _), fun other hother => ?_, ?_, ?_,
    fun position' keeper' entry hkeeper' hentry => ?_⟩
  · rw [mem_append, mem_singleton] at hother
    rcases hother with hother | rfl
    · exact h.covered other hother
    · exact ⟨keeper, mem_of_getElem? hkeeper, hsame⟩
  · have hcount := h.count
    simp only [length_append, length_singleton]
    omega
  · simp [h.size]
  · dsimp only at hkeeper' hentry
    rw [List.getElem?_modify, Option.map_eq_map, Option.map_eq_some_iff] at hentry
    obtain ⟨old, hold, rfl⟩ := hentry
    have htraced := h.traced position' keeper' old hkeeper' hold
    split
    · next hposition =>
      subst hposition
      obtain rfl : keeper = keeper' := Option.some.inj (hkeeper.symm.trans hkeeper')
      exact htraced.add hsame
    · next hposition =>
      refine htraced.other fun hsame' => hposition ?_
      have hposition' := (h.positions _ _).mpr ⟨keeper', hkeeper', hsame'⟩
      exact Option.some.inj (hkey.symm.trans hposition')

theorem holds_mergeFinding (h : Holds toLowerCase rs merge) :
    Holds toLowerCase (rs ++ [finding]) (mergeFinding toLowerCase merge finding) := by
  cases hkey : merge.positionByKey.get? (dedupKey toLowerCase finding) with
  | none => exact h.keep hkey
  | some position => exact h.fold hkey

theorem holds_foldl (findings : List (PartitionFinding ι)) :
    Holds toLowerCase findings (findings.foldl (mergeFinding toLowerCase) ⟨⟨[], 0, []⟩, .empty⟩) := by
  induction findings using List.reverseRecOn with
  | nil =>
    exact ⟨by simp, .slnil, by simp, rfl, rfl, by simp⟩
  | append_singleton findings finding ih =>
    rw [foldl_append]
    exact holds_mergeFinding ih

/-- The loop over the parts is one over what they report. -/
theorem foldl_mergePart (parts : List (PartFindings ι)) (merge : Merge ι) :
    parts.foldl (mergePart toLowerCase) merge = (reports parts).foldl (mergeFinding toLowerCase) merge := by
  have hraw : ∀ (index : ι) (raws : List Value) merge, raws.foldl (mergeRaw toLowerCase index) merge =
      (raws.filterMap fun raw => normalizeFinding raw index).foldl (mergeFinding toLowerCase) merge := by
    intro index raws merge
    rw [foldl_filterMap]
    congr 1
    funext merge raw
    rw [mergeRaw]
    cases normalizeFinding raw index <;> rfl
  induction parts generalizing merge with
  | nil => rfl
  | cons part parts ih =>
    rw [foldl_cons, ih, reports, reports, flatMap_cons, foldl_append, mergePart, hraw]
    rfl

end Loop

/-! ## The merge -/

/-- The merge of the findings of the parts loses nothing. -/
structure LosslessMerge [LinearOrder ι] (toLowerCase : String → String) (parts : List (PartFindings ι))
    (merged : MergedFindings ι) : Prop where
  count : merged.findings.length + merged.duplicates = ((parts.flatMap PartFindings.findings).filter IsObject).length
  kept : merged.findings.Sublist (reports parts)
  distinct : merged.findings.Pairwise fun a b => ¬SameTuple toLowerCase a b
  covered : ∀ finding ∈ reports parts, ∃ keeper ∈ merged.findings, SameTuple toLowerCase keeper finding
  size : merged.provenance.length = merged.findings.length
  provenance : ∀ p ∈ merged.findings.zip merged.provenance,
    p.2.title = p.1.title ∧ p.2.file = p.1.file ∧ p.2.partitions.Pairwise (· < ·) ∧
    ∀ index, index ∈ p.2.partitions ↔
      ∃ part ∈ parts, part.index = index ∧ ∃ finding ∈ part.reports, SameTuple toLowerCase finding p.1

theorem normal_of_mem {parts : List (PartFindings ι)} {finding : PartitionFinding ι} (h : finding ∈ reports parts) :
    Normal finding := by
  obtain ⟨part, -, hpart⟩ := mem_flatMap.mp h
  obtain ⟨raw, -, hraw⟩ := mem_filterMap.mp hpart
  exact (normal_normalizeFinding hraw).1

theorem length_reports (parts : List (PartFindings ι)) :
    (reports parts).length = ((parts.flatMap PartFindings.findings).filter IsObject).length := by
  have hpart : ∀ (index : ι) (raws : List Value),
      (raws.filterMap fun raw => normalizeFinding raw index).length = (raws.filter IsObject).length := by
    intro index raws
    rw [length_filterMap_eq_countP, ← countP_eq_length_filter]
    refine countP_congr fun raw _ => ?_
    cases raw <;> rfl
  induction parts with
  | nil => rfl
  | cons part parts ih =>
    rw [reports, flatMap_cons, flatMap_cons, filter_append, length_append, length_append,
      PartFindings.reports, hpart]
    exact congrArg _ ih

theorem mem_reports {parts : List (PartFindings ι)} {p : PartitionFinding ι → Prop} :
    (∃ other ∈ reports parts, other.partition = index ∧ p other) ↔
      ∃ part ∈ parts, part.index = index ∧ ∃ finding ∈ part.reports, p finding := by
  have hindex : ∀ part : PartFindings ι, ∀ finding ∈ part.reports, finding.partition = part.index := by
    intro part finding hfinding
    obtain ⟨raw, -, hraw⟩ := mem_filterMap.mp hfinding
    exact (normal_normalizeFinding hraw).2
  constructor
  · rintro ⟨other, hother, hpartition, hp⟩
    obtain ⟨part, hpart, hreport⟩ := mem_flatMap.mp hother
    exact ⟨part, hpart, (hindex part other hreport).symm.trans hpartition, other, hreport, hp⟩
  · rintro ⟨part, hpart, hpartition, other, hreport, hp⟩
    exact ⟨other, mem_flatMap.mpr ⟨part, hpart, hreport⟩, (hindex part other hreport).trans hpartition, hp⟩

section Merged

variable [LinearOrder ι] {toLowerCase : String → String} {parts parts' : List (PartFindings ι)}

/-- The variables at the end of the loop. -/
theorem holds_parts (toLowerCase : String → String) (parts : List (PartFindings ι)) :
    Holds toLowerCase (reports parts) (parts.foldl (mergePart toLowerCase) ⟨⟨[], 0, []⟩, .empty⟩) := by
  rw [foldl_mergePart]
  exact holds_foldl _

theorem sort_pairwise {entry : Provenance ι} (h : entry.partitions.Nodup) :
    (entry.partitions.insertionSort (· ≤ ·)).Pairwise (· < ·) := by
  have hsorted := pairwise_insertionSort (· ≤ ·) entry.partitions
  have hnodup := (perm_insertionSort (· ≤ ·) entry.partitions).nodup_iff.mpr h
  exact (hsorted.and hnodup).imp fun hand => lt_of_le_of_ne hand.1 hand.2

/-- A kept finding with its entry, before the sort. -/
theorem exists_entry {p : PartitionFinding ι × Provenance ι}
    (h : p ∈ (mergePartitionFindings toLowerCase parts).findings.zip
      (mergePartitionFindings toLowerCase parts).provenance) :
    ∃ entry, Traced toLowerCase (reports parts) p.1 entry ∧ Normal p.1 ∧
      p.2 = { entry with partitions := entry.partitions.insertionSort (· ≤ ·) } := by
  have hholds := holds_parts toLowerCase parts
  obtain ⟨position, hposition⟩ := mem_iff_getElem?.mp h
  obtain ⟨hfinding, hentry⟩ := List.getElem?_zip_eq_some.mp hposition
  rw [mergePartitionFindings, List.getElem?_map, Option.map_eq_some_iff] at hentry
  obtain ⟨entry, hentry, hsort⟩ := hentry
  refine ⟨entry, hholds.traced position p.1 entry hfinding hentry, ?_, hsort.symm⟩
  exact normal_of_mem (hholds.kept.subset (mem_of_getElem? hfinding))

theorem losslessMerge (parts : List (PartFindings ι)) :
    LosslessMerge toLowerCase parts (mergePartitionFindings toLowerCase parts) := by
  have hholds := holds_parts toLowerCase parts
  have hnormal := fun finding (h : finding ∈ (mergePartitionFindings toLowerCase parts).findings) =>
    normal_of_mem (hholds.kept.subset h)
  refine ⟨?_, hholds.kept, ?_, fun finding hfinding => ?_, ?_, fun p hp => ?_⟩
  · rw [← length_reports]
    exact hholds.count
  · have hpairwise := pairwise_map.mp hholds.nodup
    refine hpairwise.imp_of_mem fun {a b} ha hb hne hsame => hne ?_
    exact (dedupKey_eq_iff toLowerCase (hnormal a ha) (hnormal b hb)).mpr hsame
  · obtain ⟨keeper, hkeeper, hsame⟩ := hholds.covered finding hfinding
    exact ⟨keeper, hkeeper, (dedupKey_eq_iff toLowerCase (hnormal keeper hkeeper) (normal_of_mem hfinding)).mp hsame⟩
  · rw [mergePartitionFindings, length_map]
    exact hholds.size
  · obtain ⟨entry, htraced, hp', hsort⟩ := exists_entry hp
    rw [hsort]
    refine ⟨htraced.title, htraced.file, sort_pairwise htraced.nodup, fun index => ?_⟩
    rw [← mem_reports, mem_insertionSort, htraced.mem_iff]
    refine exists_congr fun other => and_congr_right fun hother => and_congr_right fun _ => ?_
    exact dedupKey_eq_iff toLowerCase (normal_of_mem hother) hp'

/-- Entries of one tuple list the same parts, whatever the order of the parts. -/
theorem partitions_eq (hperm : parts.Perm parts') {p p' : PartitionFinding ι × Provenance ι}
    (h : p ∈ (mergePartitionFindings toLowerCase parts).findings.zip
      (mergePartitionFindings toLowerCase parts).provenance)
    (h' : p' ∈ (mergePartitionFindings toLowerCase parts').findings.zip
      (mergePartitionFindings toLowerCase parts').provenance)
    (hsame : SameTuple toLowerCase p.1 p'.1) : p.2.partitions = p'.2.partitions := by
  obtain ⟨entry, htraced, hnormal, hsort⟩ := exists_entry h
  obtain ⟨entry', htraced', hnormal', hsort'⟩ := exists_entry h'
  have hkey := (dedupKey_eq_iff toLowerCase hnormal hnormal').mpr hsame
  have hmem : ∀ index, index ∈ entry.partitions ↔ index ∈ entry'.partitions := by
    intro index
    rw [htraced.mem_iff, htraced'.mem_iff, hkey]
    exact exists_congr fun other => and_congr_left' (hperm.flatMap_right _).mem_iff
  have hentries := (perm_ext_iff_of_nodup htraced.nodup htraced'.nodup).mpr hmem
  rw [hsort, hsort']
  exact (((perm_insertionSort _ _).trans hentries).trans (perm_insertionSort _ _).symm).eq_of_pairwise'
    (pairwise_insertionSort _ _) (pairwise_insertionSort _ _)

/-- The tuples of one order of the parts are kept in any other. -/
theorem exists_keeper (hperm : parts.Perm parts') {a : PartitionFinding ι}
    (ha : a ∈ (mergePartitionFindings toLowerCase parts).findings) :
    ∃ b ∈ (mergePartitionFindings toLowerCase parts').findings, SameTuple toLowerCase b a :=
  (losslessMerge parts').covered a ((hperm.flatMap_right _).mem_iff.mp ((losslessMerge parts).kept.subset ha))

theorem duplicates_eq (hperm : parts.Perm parts') : (mergePartitionFindings toLowerCase parts).duplicates =
    (mergePartitionFindings toLowerCase parts').duplicates := by
  have hreports : (reports parts).Perm (reports parts') := hperm.flatMap_right _
  have hholds := holds_parts toLowerCase parts
  have hholds' := holds_parts toLowerCase parts'
  have hkept := (hholds.perm hholds' hreports).length_eq
  have hcount := hholds.count
  have hcount' := hholds'.count
  have hlength := hreports.length_eq
  rw [length_map, length_map] at hkept
  change (parts.foldl (mergePart toLowerCase) ⟨⟨[], 0, []⟩, .empty⟩).duplicates =
    (parts'.foldl (mergePart toLowerCase) ⟨⟨[], 0, []⟩, .empty⟩).duplicates
  omega

/-- Merging loses nothing: the object-shaped findings are kept or counted, one is kept for each tuple, an entry lists
the parts that reported its tuple, and another order of the parts gives the same tuples, count and lists. -/
theorem mergePartitionFindings_exact (toLowerCase : String → String) (parts : List (PartFindings ι)) :
    LosslessMerge toLowerCase parts (mergePartitionFindings toLowerCase parts) ∧
    (∀ a ∈ reports parts, ∀ b ∈ reports parts,
      dedupKey toLowerCase a = dedupKey toLowerCase b ↔ SameTuple toLowerCase a b) ∧
    ∀ parts', parts.Perm parts' →
      let merged := mergePartitionFindings toLowerCase parts
      let merged' := mergePartitionFindings toLowerCase parts'
      merged.duplicates = merged'.duplicates ∧
      (∀ a ∈ merged.findings, ∃ b ∈ merged'.findings, SameTuple toLowerCase b a) ∧
      (∀ b ∈ merged'.findings, ∃ a ∈ merged.findings, SameTuple toLowerCase a b) ∧
      ∀ p ∈ merged.findings.zip merged.provenance, ∀ p' ∈ merged'.findings.zip merged'.provenance,
        SameTuple toLowerCase p.1 p'.1 → p.2.partitions = p'.2.partitions := by
  refine ⟨losslessMerge parts, fun a ha b hb => dedupKey_eq_iff toLowerCase (normal_of_mem ha) (normal_of_mem hb),
    fun parts' hperm => ⟨duplicates_eq hperm, fun a => exists_keeper hperm, fun b => exists_keeper hperm.symm, ?_⟩⟩
  exact fun p hp p' hp' hsame => partitions_eq hperm hp hp' hsame

end Merged

end PrReviewer.Partition
