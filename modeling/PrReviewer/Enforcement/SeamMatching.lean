import PrReviewer.Enforcement.RequirementTrace
import PrReviewer.Graph.Matching
import PrReviewer.Js.Dedup
import PrReviewer.Js.Latest

/-!
# Matching citations to seams

`assign` searches for an augmenting path from a group that has no citation.

- **One search** (`assign_outcome`): it hands the citations of a path on, or every citation it has tried is taken and
  nobody it has asked accepts another one (`Exhausted`).
- **All of them** (`assignAll_settled`): the citations given are a matching, and the groups without one are in a stuck
  set, so no other assignment covers more groups (`Settled.covers_most`).
- **Under the groups' names** (`matchCitationsToGroups_coversMost`): the same for the groups and citations themselves.
-/

namespace PrReviewer.Enforcement

open Js List
open Graph

namespace MatchSearch

/-- The group of a citation. -/
def owner (s : MatchSearch) (c : Nat) : Option Nat := s.citationToGroup.get? c

theorem owner_set (s : MatchSearch) (c g : Nat) :
    owner { s with citationToGroup := s.citationToGroup.set c g } = Function.update s.owner c (some g) := by
  funext d
  rw [owner, Map.get?_set, Function.update_apply]
  rfl

/-- The number of citations that are left to try. -/
def untried (count : Nat) (s : MatchSearch) : Nat := ((List.range count).filter fun c => !s.visited.contains c).length

theorem untried_le {count : Nat} {s s' : MatchSearch} (h : s.visited ⊆ s'.visited) : s'.untried count ≤ s.untried count := by
  refine (monotone_filter_right _ fun c hc => ?_).length_le
  simp only [Bool.not_eq_true', contains_eq_mem, decide_eq_false_iff_not] at hc ⊢
  exact fun hmem => hc (h hmem)

theorem untried_lt {count c : Nat} {s s' : MatchSearch} (h : s.visited ⊆ s'.visited) (hc : c < count)
    (hold : c ∉ s.visited) (hnew : c ∈ s'.visited) : s'.untried count < s.untried count := by
  have hsub : ((List.range count).filter fun c => !s'.visited.contains c).Sublist
      ((List.range count).filter fun c => !s.visited.contains c) := by
    refine monotone_filter_right _ fun c hc => ?_
    simp only [Bool.not_eq_true', contains_eq_mem, decide_eq_false_iff_not] at hc ⊢
    exact fun hmem => hc (h hmem)
  refine lt_of_le_of_ne hsub.length_le fun heq => ?_
  have hmem : c ∈ (List.range count).filter fun c => !s.visited.contains c := by
    simp [hc, hold]
  rw [← hsub.eq_of_length heq] at hmem
  simp [hnew] at hmem

/-- The citations of an augmenting path that was not tried before have been handed on. -/
def Found (adj : Nat → Nat → Prop) (g : Nat) (s s' : MatchSearch) : Prop :=
  ∃ cs, Augments adj s.owner g cs ∧ (∀ c ∈ cs, c ∉ s.visited) ∧ s'.owner = rotate s.owner g cs

/-- Every citation tried in between is taken, and its group accepts only citations that have been tried. -/
structure Exhausted (adj : Nat → Nat → Prop) (s s' : MatchSearch) : Prop where
  owners : s'.citationToGroup = s.citationToGroup
  visited : s.visited ⊆ s'.visited
  taken : ∀ {c}, c ∈ s'.visited → c ∉ s.visited → ∃ h, s.owner c = some h ∧ ∀ {d}, adj h d → d ∈ s'.visited

variable {adj : Nat → Nat → Prop} {g : Nat} {s s' s'' : MatchSearch}

theorem Exhausted.refl : Exhausted adj s s := ⟨rfl, fun _ h => h, fun h hn => absurd h hn⟩

theorem Exhausted.owner_eq (h : Exhausted adj s s') : s'.owner = s.owner := by
  funext c
  rw [owner, owner, h.owners]

theorem Exhausted.trans (h : Exhausted adj s s') (h' : Exhausted adj s' s'') : Exhausted adj s s'' := by
  refine ⟨h'.owners.trans h.owners, fun c hc => h'.visited (h.visited hc), fun {c} hc hn => ?_⟩
  by_cases hmid : c ∈ s'.visited
  · obtain ⟨k, hk, hnext⟩ := h.taken hmid hn
    exact ⟨k, hk, fun hd => h'.visited (hnext hd)⟩
  · obtain ⟨k, hk, hnext⟩ := h'.taken hc hmid
    rw [h.owner_eq] at hk
    exact ⟨k, hk, hnext⟩

/-- A citation that is taken, and whose group has been asked in vain. -/
theorem Exhausted.step {c k : Nat} (howner : s.owner c = some k)
    (h : Exhausted adj { s with visited := c :: s.visited } s') (hnext : ∀ {d}, adj k d → d ∈ s'.visited) :
    Exhausted adj s s' := by
  refine ⟨h.owners, fun d hd => h.visited (mem_cons_of_mem _ hd), fun {d} hd hn => ?_⟩
  by_cases hdc : d = c
  · exact ⟨k, hdc ▸ howner, hnext⟩
  · exact h.taken hd fun hmem => (mem_cons.mp hmem).elim hdc hn

theorem Found.of_exhausted (h : Exhausted adj s s') (hfound : Found adj g s' s'') : Found adj g s s'' := by
  obtain ⟨cs, hpath, hfresh, howner⟩ := hfound
  rw [h.owner_eq] at hpath howner
  exact ⟨cs, hpath, fun c hc hmem => hfresh c hc (h.visited hmem), howner⟩

/-- What a search from the group `g` among the citations `cs` does. -/
structure Outcome (adj : Nat → Nat → Prop) (cs : List Nat) (g : Nat) (s : MatchSearch) (r : Bool × MatchSearch) :
    Prop where
  found : r.1 = true → Found adj g s r.2
  exhausted : r.1 = false → Exhausted adj s r.2 ∧ ∀ c ∈ cs, adj g c → c ∈ r.2.visited

end MatchSearch

open MatchSearch

/-- The group `g` accepts the citation `c`, which is one of the first `count`. -/
def Accepts (accepts : Nat → Nat → Bool) (count g c : Nat) : Prop := c < count ∧ accepts g c = true

variable {accepts : Nat → Nat → Bool} {count fuel : Nat} {again : Nat → MatchSearch → Bool × MatchSearch}

/-! ## One search -/

theorem tryCitations_outcome
    (hagain : ∀ g s, s.untried count < fuel → Outcome (Accepts accepts count) (List.range count) g s (again g s))
    (g : Nat) {cs : List Nat} (hcs : ∀ c ∈ cs, c < count) (s : MatchSearch) (hfuel : s.untried count ≤ fuel) :
    Outcome (Accepts accepts count) cs g s (tryCitations accepts again g cs s) := by
  induction cs generalizing s with
  | nil => exact ⟨fun h => (by cases h), fun _ => ⟨.refl, fun c hc => absurd hc not_mem_nil⟩⟩
  | cons c cs ih =>
    have hcs' : ∀ d ∈ cs, d < count := fun d hd => hcs d (mem_cons_of_mem _ hd)
    have hc : c < count := hcs c mem_cons_self
    rw [tryCitations]
    split
    · next hskip =>
      obtain ⟨hfound, hexhausted⟩ := ih hcs' s hfuel
      refine ⟨hfound, fun hfalse => ?_⟩
      obtain ⟨hex, htried⟩ := hexhausted hfalse
      refine ⟨hex, fun d hd hadj => ?_⟩
      rcases mem_cons.mp hd with rfl | hd
      · have hvisited : d ∈ s.visited := by simpa [hadj.2] using hskip
        exact hex.visited hvisited
      · exact htried d hd hadj
    · next htry =>
      simp only [Bool.or_eq_true, contains_eq_mem, decide_eq_true_eq, Bool.not_eq_true', not_or,
        Bool.not_eq_false] at htry
      obtain ⟨hfresh, haccepts⟩ := htry
      have hadj : Accepts accepts count g c := ⟨hc, haccepts⟩
      have hless : MatchSearch.untried count { s with visited := c :: s.visited } < s.untried count :=
        untried_lt (subset_cons_self _ _) hc hfresh mem_cons_self
      simp only
      cases howner : s.citationToGroup.get? c with
      | none =>
        refine ⟨fun _ => ⟨[c], .free hadj howner, fun d hd => mem_singleton.mp hd ▸ hfresh, ?_⟩,
          fun h => (by cases h)⟩
        have hfree : s.owner c = none := howner
        rw [rotate_of_free hfree]
        exact owner_set s c g
      | some prior =>
        have hprior : s.owner c = some prior := howner
        have hout := hagain prior { s with visited := c :: s.visited } (hless.trans_le hfuel)
        simp only
        cases hr : again prior { s with visited := c :: s.visited } with
        | mk ok t =>
          rw [hr] at hout
          cases ok with
          | true =>
            obtain ⟨path, hpath, hnew, hrotate⟩ := hout.found rfl
            refine ⟨fun _ => ⟨c :: path, .step hadj hprior (fun hmem => hnew c hmem mem_cons_self) hpath, ?_, ?_⟩,
              fun h => (by cases h)⟩
            · intro d hd
              rcases mem_cons.mp hd with rfl | hd
              · exact hfresh
              · exact fun hmem => hnew d hd (mem_cons_of_mem _ hmem)
            · have hrotate : t.owner = rotate s.owner prior path := hrotate
              rw [rotate_of_owner hprior, ← hrotate]
              exact owner_set t c g
          | false =>
            obtain ⟨hex, htried⟩ := hout.exhausted rfl
            have hstep : Exhausted (Accepts accepts count) s t :=
              hex.step hprior fun hd => htried _ (mem_range.mpr hd.1) hd
            have hfuel' : t.untried count ≤ fuel := (untried_le hstep.visited).trans hfuel
            obtain ⟨hfound, hexhausted⟩ := ih hcs' t hfuel'
            refine ⟨fun h => .of_exhausted hstep (hfound h), fun h => ?_⟩
            obtain ⟨hrest, htried'⟩ := hexhausted h
            refine ⟨hstep.trans hrest, fun d hd hadj' => ?_⟩
            rcases mem_cons.mp hd with rfl | hd
            · exact hrest.visited (hex.visited mem_cons_self)
            · exact htried' d hd hadj'

theorem assign_outcome (g : Nat) (s : MatchSearch) (hfuel : s.untried count < fuel) :
    Outcome (Accepts accepts count) (List.range count) g s (assign accepts count fuel g s) := by
  induction fuel generalizing g s with
  | zero => exact absurd hfuel (Nat.not_lt_zero _)
  | succ fuel ih =>
    exact tryCitations_outcome (fun g s h => ih g s h) g (fun c hc => mem_range.mp hc) s (Nat.lt_succ_iff.mp hfuel)

/-! ## All groups -/

/-- The citations given to the groups of `gs`: a matching, in which whoever has nothing is stuck. -/
structure Settled (adj : Nat → Nat → Prop) (gs : List Nat) (owners : Map Nat Nat) : Prop where
  matching : IsMatching adj owners.get?
  owners_mem : ∀ {c g}, owners.get? c = some g → g ∈ gs
  stuck : ∃ X V, Stuck adj owners.get? X V ∧ ∀ g ∈ gs, (∃ c, owners.get? c = some g) ∨ g ∈ X

theorem settled_empty {adj : Nat → Nat → Prop} : Settled adj [] .empty := by
  refine ⟨⟨fun h => ?_, fun h => ?_⟩, fun h => ?_, ∅, ∅, stuck_empty, fun g hg => absurd hg not_mem_nil⟩
  all_goals
    rw [Map.get?_empty] at h
    cases h

variable {gs : List Nat} {owners : Map Nat Nat}

theorem Settled.found {adj : Nat → Nat → Prop} {g : Nat} {s' : MatchSearch}
    (h : Settled adj gs owners) (hg : g ∉ gs) (hfound : Found adj g ⟨[], owners⟩ s') :
    Settled adj (gs ++ [g]) s'.citationToGroup := by
  obtain ⟨cs, hpath, -, hrotate⟩ := hfound
  have hpath : Augments adj owners.get? g cs := hpath
  have hrotate : s'.citationToGroup.get? = rotate owners.get? g cs := hrotate
  obtain ⟨hmatching, howners⟩ := h.matching.rotate hpath fun c hc => hg (h.owners_mem hc)
  obtain ⟨X, V, hstuck, hcover⟩ := h.stuck
  refine ⟨hrotate ▸ hmatching, fun {c k} hc => ?_, X, V, hrotate ▸ hstuck.rotate hpath, fun k hk => ?_⟩
  · rw [hrotate] at hc
    rcases (howners k).mp ⟨c, hc⟩ with rfl | ⟨d, hd⟩
    · exact mem_append_right _ mem_cons_self
    · exact mem_append_left _ (h.owners_mem hd)
  · rw [hrotate, howners k]
    rcases mem_append.mp hk with hk | hk
    · rcases hcover k hk with hc | hX
      · exact .inl (.inr hc)
      · exact .inr hX
    · exact .inl (.inl (mem_singleton.mp hk))

theorem Settled.exhausted {g : Nat} {s' : MatchSearch}
    (h : Settled (Accepts accepts count) gs owners) (hex : Exhausted (Accepts accepts count) ⟨[], owners⟩ s')
    (htried : ∀ c ∈ List.range count, Accepts accepts count g c → c ∈ s'.visited) :
    Settled (Accepts accepts count) (gs ++ [g]) s'.citationToGroup := by
  obtain ⟨X, V, hstuck, hcover⟩ := h.stuck
  rw [hex.owners]
  have hnew : Stuck (Accepts accepts count) owners.get? {k | k = g ∨ ∃ c ∈ s'.visited, owners.get? c = some k}
      {c | c ∈ s'.visited} := by
    refine ⟨fun {k c} hk hadj => ?_, fun {c} hc => ?_⟩
    · rcases hk with rfl | ⟨d, hd, hdk⟩
      · exact htried c (mem_range.mpr hadj.1) hadj
      · obtain ⟨k', hk', hnext⟩ := hex.taken hd not_mem_nil
        have hk' : owners.get? d = some k' := hk'
        rw [hdk, Option.some.injEq] at hk'
        exact hnext (hk' ▸ hadj)
    · obtain ⟨k, hk, -⟩ := hex.taken hc not_mem_nil
      exact ⟨k, .inr ⟨c, hc, hk⟩, hk⟩
  refine ⟨h.matching, fun hc => mem_append_left _ (h.owners_mem hc), _, _, hstuck.union hnew, fun k hk => ?_⟩
  rcases mem_append.mp hk with hk | hk
  · exact (hcover k hk).imp_right .inl
  · exact .inr (.inr (.inl (mem_singleton.mp hk)))

theorem untried_lt_succ (count : Nat) (owners : Map Nat Nat) : MatchSearch.untried count ⟨[], owners⟩ < count + 1 := by
  have hle := length_filter_le (fun c => !([] : List Nat).contains c) (List.range count)
  rw [length_range] at hle
  exact Nat.lt_succ_of_le hle

theorem Settled.assign {gs : List Nat} {owners : Map Nat Nat} {g : Nat} (h : Settled (Accepts accepts count) gs owners)
    (hg : g ∉ gs) :
    Settled (Accepts accepts count) (gs ++ [g]) (assign accepts count (count + 1) g ⟨[], owners⟩).2.citationToGroup := by
  have hout : Outcome (Accepts accepts count) (List.range count) g _ (Enforcement.assign accepts count (count + 1) g _) :=
    assign_outcome g ⟨[], owners⟩ (untried_lt_succ count owners)
  cases hr : (Enforcement.assign accepts count (count + 1) g ⟨[], owners⟩).1 with
  | true => exact h.found hg (hout.found hr)
  | false =>
    obtain ⟨hex, htried⟩ := hout.exhausted hr
    exact h.exhausted hex htried

theorem assignAll_settled (hnodup : gs.Nodup) :
    Settled (Accepts accepts count) gs (assignAll accepts count gs) := by
  induction gs using List.reverseRecOn with
  | nil => exact settled_empty
  | append_singleton gs g ih =>
    rw [nodup_append] at hnodup
    obtain ⟨hgs, -, hdisjoint⟩ := hnodup
    rw [assignAll, foldl_append]
    exact (ih hgs).assign fun hg => hdisjoint g hg g mem_cons_self rfl

/-- The matching covers as many groups as any assignment of citations does. -/
theorem Settled.covers_most {adj : Nat → Nat → Prop} (h : Settled adj gs owners)
    (hnodup : gs.Nodup) {f : Nat → Option Nat} (hf : IsAssignment adj f) :
    (gs.filter fun g => (f g).isSome).length ≤ (gs.filter fun g => owners.values.contains g).length := by
  obtain ⟨X, V, hstuck, hcover⟩ := h.stuck
  refine hstuck.covers_most hnodup h.matching h.owners_mem hcover (fun g => ?_) hf
  rw [contains_eq_mem, decide_eq_true_eq, Map.mem_values_iff]

/-! ## Groups and citations -/

theorem length_filter_range {α : Type} (as : List α) (p : α → Bool) :
    ((List.range as.length).filter fun i => as[i]?.any p).length = (as.filter p).length := by
  induction as using List.reverseRecOn with
  | nil => rfl
  | append_singleton as a ih =>
    have hold : (List.range as.length).filter (fun i => (as ++ [a])[i]?.any p) =
        (List.range as.length).filter fun i => as[i]?.any p := by
      apply filter_congr
      intro i hi
      rw [List.getElem?_append_left (mem_range.mp hi)]
    rw [length_append, length_singleton, range_succ, filter_append, filter_append,
      length_append, length_append, hold, ih]
    congr 1
    simp only [filter_singleton, List.getElem?_concat_length, Option.any_some]
    cases p a <;> rfl

/-- The citation may be the group's. -/
def MayCover (toLowerCase : String → String) (groups : List RequirementGroup) (citations : List TraceLocation)
    (patternsFor : RequirementGroup → List String) (group : RequirementGroup) (loc : TraceLocation) : Prop :=
  group ∈ groups ∧ loc ∈ citations ∧ citationMatchesPatterns toLowerCase loc (patternsFor group) = true

/-- A choice of distinct citations for every group. -/
def IsSystem (adj : RequirementGroup → TraceLocation → Prop) (groups : List RequirementGroup)
    (f : RequirementGroup → Option TraceLocation) : Prop :=
  IsAssignment adj f ∧ ∀ group ∈ groups, (f group).isSome = true

/-- Citations under the names of groups: one of a group's own for each name, no citation twice, for as many groups as
possible, and so for all of them when there is a system of distinct citations. -/
structure CoversMost (adj : RequirementGroup → TraceLocation → Prop) (groups : List RequirementGroup)
    (found : Map String TraceLocation) : Prop where
  own : ∀ {name loc}, found.get? name = some loc → ∃ group, group.name = name ∧ adj group loc
  once : ∀ {name name' loc}, found.get? name = some loc → found.get? name' = some loc → name = name'
  most : ∀ {f}, IsAssignment adj f →
    (groups.filter fun group => (f group).isSome).length ≤ (groups.filter fun group => found.has group.name).length
  all : (∀ group ∈ groups, found.has group.name = true) ↔ ∃ f, IsSystem adj groups f

section

variable (toLowerCase : String → String) (groups : List RequirementGroup) (citations : List TraceLocation)
  (patternsFor : RequirementGroup → List String)

/-- `accepts` of `matchCitationsToGroups`. -/
def acceptsCitation (groupIndex citationIndex : Nat) : Bool :=
  match groups[groupIndex]?, citations.eraseDups[citationIndex]? with
  | some group, some loc => citationMatchesPatterns toLowerCase loc (patternsFor group)
  | _, _ => false

/-- The group of each citation, by their indices. -/
def citationOwners : Map Nat Nat :=
  assignAll (acceptsCitation toLowerCase groups citations patternsFor) citations.eraseDups.length
    (List.range groups.length)

theorem matchCitationsToGroups_eq : matchCitationsToGroups toLowerCase groups citations patternsFor =
    latest (fun e => (groups[e.2]?.map (·.name)).getD "") (fun e => groups[e.2]?.bind fun _ => citations.eraseDups[e.1]?)
      (citationOwners toLowerCase groups citations patternsFor).entries := by
  have hstep : ∀ (found : Map String TraceLocation) (e : Nat × Nat),
      (match groups[e.2]?, citations.eraseDups[e.1]? with
        | some group, some loc => found.set group.name loc
        | _, _ => found) =
      (groups[e.2]?.bind fun _ => citations.eraseDups[e.1]?).elim found
        (found.set ((groups[e.2]?.map (·.name)).getD "")) := by
    intro found e
    cases groups[e.2]? with
    | none => rfl
    | some group => cases citations.eraseDups[e.1]? <;> rfl
  rw [latest, ← funext₂ hstep]
  rfl

theorem citationOwners_settled : Settled
    (Accepts (acceptsCitation toLowerCase groups citations patternsFor) citations.eraseDups.length)
    (List.range groups.length) (citationOwners toLowerCase groups citations patternsFor) :=
  assignAll_settled nodup_range

variable {toLowerCase groups citations patternsFor}

/-- Indices of a group and a citation that it accepts. -/
theorem accepts_iff {g c : Nat} :
    Accepts (acceptsCitation toLowerCase groups citations patternsFor) citations.eraseDups.length g c ↔
      ∃ group loc, groups[g]? = some group ∧ citations.eraseDups[c]? = some loc ∧
        MayCover toLowerCase groups citations patternsFor group loc := by
  rw [Accepts, acceptsCitation]
  constructor
  · rintro ⟨-, haccepts⟩
    cases hg : groups[g]? with
    | none =>
      rw [hg] at haccepts
      cases haccepts
    | some group =>
      cases hc : citations.eraseDups[c]? with
      | none =>
        rw [hg, hc] at haccepts
        cases haccepts
      | some loc =>
        rw [hg, hc] at haccepts
        exact ⟨group, loc, rfl, rfl, mem_of_getElem? hg, mem_eraseDups.mp (mem_of_getElem? hc), haccepts⟩
  · rintro ⟨group, loc, hg, hc, -, -, hmatch⟩
    rw [hg, hc]
    exact ⟨(List.getElem?_eq_some_iff.mp hc).1, hmatch⟩

theorem index_of_name (hnames : (groups.map (·.name)).Nodup) {i j : Nat} {group group' : RequirementGroup}
    (hi : groups[i]? = some group) (hj : groups[j]? = some group') (heq : group.name = group'.name) : i = j := by
  have hi' : (groups.map (·.name))[i]? = some group.name := by rw [List.getElem?_map, hi, Option.map_some]
  have hj' : (groups.map (·.name))[j]? = some group.name := by rw [List.getElem?_map, hj, Option.map_some, heq]
  exact (List.getElem?_inj (List.getElem?_eq_some_iff.mp hi').1 hnames).mp (hi'.trans hj'.symm)

theorem get?_matchCitationsToGroups (hnames : (groups.map (·.name)).Nodup) {name : String} {loc : TraceLocation} :
    (matchCitationsToGroups toLowerCase groups citations patternsFor).get? name = some loc ↔
      ∃ g c group, groups[g]? = some group ∧ group.name = name ∧
        (citationOwners toLowerCase groups citations patternsFor).get? c = some g ∧
        citations.eraseDups[c]? = some loc := by
  have hsettled := citationOwners_settled toLowerCase groups citations patternsFor
  have hsaid : ∀ {x}, x ∈ saidOf (fun e : Nat × Nat => (groups[e.2]?.map (·.name)).getD "")
      (fun e => groups[e.2]?.bind fun _ => citations.eraseDups[e.1]?)
      (citationOwners toLowerCase groups citations patternsFor).entries name ↔
      ∃ g c group, groups[g]? = some group ∧ group.name = name ∧
        (citationOwners toLowerCase groups citations patternsFor).get? c = some g ∧
        citations.eraseDups[c]? = some x := by
    intro x
    rw [saidOf, mem_filterMap]
    constructor
    · rintro ⟨⟨c, g⟩, he, hx⟩
      obtain ⟨hmem, hname⟩ := mem_filter.mp he
      obtain ⟨group, hg, hc⟩ := Option.bind_eq_some_iff.mp hx
      simp only [hg, Option.map_some, Option.getD_some, decide_eq_true_eq] at hname
      exact ⟨g, c, group, hg, hname, Map.mem_entries_iff.mp hmem, hc⟩
    · rintro ⟨g, c, group, hg, hname, howner, hc⟩
      refine ⟨(c, g), mem_filter.mpr ⟨Map.mem_entries_iff.mpr howner, ?_⟩, ?_⟩
      · simp only [hg, Option.map_some, Option.getD_some, hname, decide_true]
      · simp only [hg, Option.bind_some, hc]
  rw [matchCitationsToGroups_eq, get?_latest, ← hsaid]
  refine ⟨List.mem_of_getLast?, fun hmem => ?_⟩
  -- one group has the name, and it has one citation
  cases hlast : (saidOf (fun e : Nat × Nat => (groups[e.2]?.map (·.name)).getD "")
      (fun e => groups[e.2]?.bind fun _ => citations.eraseDups[e.1]?)
      (citationOwners toLowerCase groups citations patternsFor).entries name).getLast? with
  | none =>
    rw [List.getLast?_eq_none_iff] at hlast
    rw [hlast] at hmem
    exact absurd hmem not_mem_nil
  | some loc' =>
    obtain ⟨g, c, group, hg, hname, howner, hc⟩ := hsaid.mp hmem
    obtain ⟨g', c', group', hg', hname', howner', hc'⟩ := hsaid.mp (List.mem_of_getLast? hlast)
    obtain rfl := index_of_name hnames hg hg' (hname.trans hname'.symm)
    obtain rfl := hsettled.matching.inj howner howner'
    rw [← hc', hc]

/-- The group has a citation when its index has one. -/
theorem has_matchCitationsToGroups (hnames : (groups.map (·.name)).Nodup) {i : Nat} {group : RequirementGroup}
    (hi : groups[i]? = some group) :
    (matchCitationsToGroups toLowerCase groups citations patternsFor).has group.name =
      (citationOwners toLowerCase groups citations patternsFor).values.contains i := by
  have hsettled := citationOwners_settled toLowerCase groups citations patternsFor
  rw [Bool.eq_iff_iff, contains_eq_mem, decide_eq_true_eq, Map.mem_values_iff, Map.has, Option.isSome_iff_exists]
  constructor
  · rintro ⟨loc, hloc⟩
    obtain ⟨g, c, group', hg, hname, howner, -⟩ := (get?_matchCitationsToGroups hnames).mp hloc
    obtain rfl := index_of_name hnames hg hi hname
    exact ⟨c, howner⟩
  · rintro ⟨c, howner⟩
    obtain ⟨group', loc, hg, hc, -⟩ := accepts_iff.mp (hsettled.matching.adj howner)
    exact ⟨loc, (get?_matchCitationsToGroups hnames).mpr ⟨i, c, group, hi, rfl, howner, hc⟩⟩

/-- A map that covers every group with a citation of its own is a system. -/
theorem isSystem_of_covered (hnames : (groups.map (·.name)).Nodup) {found : Map String TraceLocation}
    (hown : ∀ {name loc}, found.get? name = some loc →
      ∃ group, group.name = name ∧ MayCover toLowerCase groups citations patternsFor group loc)
    (honce : ∀ {name name' loc}, found.get? name = some loc → found.get? name' = some loc → name = name')
    (hall : ∀ group ∈ groups, found.has group.name = true) :
    IsSystem (MayCover toLowerCase groups citations patternsFor) groups
      fun group => if group ∈ groups then found.get? group.name else none := by
  refine ⟨⟨?_, ?_⟩, ?_⟩
  · intro group loc h
    simp only [Option.ite_none_right_eq_some] at h
    obtain ⟨group', hname, hmay⟩ := hown h.2
    have heq : group' = group := inj_on_of_nodup_map hnames hmay.1 h.1 hname
    exact heq ▸ hmay
  · intro group group' loc h h'
    simp only [Option.ite_none_right_eq_some] at h h'
    exact inj_on_of_nodup_map hnames h.1 h'.1 (honce h.2 h'.2)
  · intro group hgroup
    simp only [if_pos hgroup]
    exact hall group hgroup

theorem matchCitationsToGroups_coversMost (hnames : (groups.map (·.name)).Nodup) :
    CoversMost (MayCover toLowerCase groups citations patternsFor) groups
      (matchCitationsToGroups toLowerCase groups citations patternsFor) := by
  have hsettled := citationOwners_settled toLowerCase groups citations patternsFor
  have hown : ∀ {name loc}, (matchCitationsToGroups toLowerCase groups citations patternsFor).get? name = some loc →
      ∃ group, group.name = name ∧ MayCover toLowerCase groups citations patternsFor group loc := by
    intro name loc h
    obtain ⟨g, c, group, hg, hname, howner, hc⟩ := (get?_matchCitationsToGroups hnames).mp h
    obtain ⟨group', loc', hg', hc', hmay⟩ := accepts_iff.mp (hsettled.matching.adj howner)
    rw [hg, Option.some.injEq] at hg'
    rw [hc, Option.some.injEq] at hc'
    exact ⟨group, hname, hg' ▸ hc' ▸ hmay⟩
  have honce : ∀ {name name' loc},
      (matchCitationsToGroups toLowerCase groups citations patternsFor).get? name = some loc →
      (matchCitationsToGroups toLowerCase groups citations patternsFor).get? name' = some loc → name = name' := by
    intro name name' loc h h'
    obtain ⟨g, c, group, hg, hname, howner, hc⟩ := (get?_matchCitationsToGroups hnames).mp h
    obtain ⟨g', c', group', hg', hname', howner', hc'⟩ := (get?_matchCitationsToGroups hnames).mp h'
    obtain rfl := (List.getElem?_inj (List.getElem?_eq_some_iff.mp hc).1 (nodup_eraseDups citations)).mp
      (hc.trans hc'.symm)
    rw [howner, Option.some.injEq] at howner'
    subst howner'
    rw [hg, Option.some.injEq] at hg'
    rw [← hname, ← hname', hg']
  have hmost : ∀ {f}, IsAssignment (MayCover toLowerCase groups citations patternsFor) f →
      (groups.filter fun group => (f group).isSome).length ≤
        (groups.filter fun group =>
          (matchCitationsToGroups toLowerCase groups citations patternsFor).has group.name).length := by
    intro f hf
    -- the assignment by indices
    have hassign : IsAssignment
        (Accepts (acceptsCitation toLowerCase groups citations patternsFor) citations.eraseDups.length)
        fun g => (groups[g]?.bind f).map fun loc => citations.eraseDups.idxOf loc := by
      have hinv : ∀ {g c : Nat}, (groups[g]?.bind f).map (fun loc => citations.eraseDups.idxOf loc) = some c →
          ∃ group loc, groups[g]? = some group ∧ f group = some loc ∧ citations.eraseDups[c]? = some loc := by
        intro g c h
        obtain ⟨loc, hloc, rfl⟩ := Option.map_eq_some_iff.mp h
        obtain ⟨group, hg, hfg⟩ := Option.bind_eq_some_iff.mp hloc
        have hmem : loc ∈ citations.eraseDups := mem_eraseDups.mpr (hf.adj hfg).2.1
        exact ⟨group, loc, hg, hfg, List.getElem?_idxOf hmem⟩
      refine ⟨fun {g c} h => ?_, fun {g g' c} h h' => ?_⟩
      · obtain ⟨group, loc, hg, hfg, hc⟩ := hinv h
        exact accepts_iff.mpr ⟨group, loc, hg, hc, hf.adj hfg⟩
      · obtain ⟨group, loc, hg, hfg, hc⟩ := hinv h
        obtain ⟨group', loc', hg', hfg', hc'⟩ := hinv h'
        rw [hc, Option.some.injEq] at hc'
        subst hc'
        exact index_of_name hnames hg hg' (congrArg (·.name) (hf.inj hfg hfg'))
    have hle := hsettled.covers_most nodup_range hassign
    have hleft : (groups.filter fun group => (f group).isSome).length =
        ((List.range groups.length).filter fun g =>
          ((groups[g]?.bind f).map fun loc => citations.eraseDups.idxOf loc).isSome).length := by
      rw [← length_filter_range]
      congr 1
      apply filter_congr
      intro i hi
      cases groups[i]? with
      | none => rfl
      | some group => rw [Option.any_some, Option.bind_some, Option.isSome_map]
    have hright : (groups.filter fun group =>
          (matchCitationsToGroups toLowerCase groups citations patternsFor).has group.name).length =
        ((List.range groups.length).filter fun g =>
          (citationOwners toLowerCase groups citations patternsFor).values.contains g).length := by
      rw [← length_filter_range]
      congr 1
      apply filter_congr
      intro i hi
      obtain ⟨group, hg⟩ : ∃ group, groups[i]? = some group :=
        Option.isSome_iff_exists.mp (by simpa using mem_range.mp hi)
      rw [hg, Option.any_some, has_matchCitationsToGroups hnames hg]
    rw [hleft, hright]
    exact hle
  refine ⟨hown, honce, hmost, ?_, ?_⟩
  · exact fun hall => ⟨_, isSystem_of_covered hnames hown honce hall⟩
  · rintro ⟨f, hf, htotal⟩ group hgroup
    have hle := hmost hf
    rw [filter_eq_self.mpr htotal] at hle
    have hsub := filter_sublist (p := fun group =>
      (matchCitationsToGroups toLowerCase groups citations patternsFor).has group.name) (l := groups)
    rw [← hsub.eq_of_length_le hle] at hgroup
    exact (mem_filter.mp hgroup).2

end

end PrReviewer.Enforcement
