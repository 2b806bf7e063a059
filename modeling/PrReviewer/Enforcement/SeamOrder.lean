import PrReviewer.Enforcement.SeamMatching
import Mathlib.Tactic.IntervalCases

/-!
# Seams and the order of citations

Whether every seam is covered does not depend on the order of the citations, but the predicate check looks only at the
matching that the order has led to.

- **Met** (`distributedClaim_eq_met_iff`): both lists have a system of distinct citations, and a predicate is near a
  citation of the matching.
- **First** (`has_first`): a citation that is listed first and that some seam accepts is in the matching.
- **Walks** (`exists_walk`): the citations of a system can be ordered such that no search among them comes to an end
  without a citation, so no other citation is in the matching (`exists_order`).
- **Order** (`seams_order_iff`): the disposition depends on the order when copies alone cover every seam and a seam
  accepts a citation that has a predicate near.
-/

namespace PrReviewer.Enforcement

open Js List
open Graph
open MatchSearch (Outcome)
open Tools (isTestPath)

/-! ## The names of seams -/

/-- Every group is under its name. -/
def Named (byName : Map String RequirementGroup) : Prop := ∀ name group, byName.get? name = some group → group.name = name

theorem Named.addGroup {byName : Map String RequirementGroup} (h : Named byName) (group : RequirementGroup) :
    Named (addGroup byName group) := by
  intro name g hg
  rw [Enforcement.addGroup] at hg
  split at hg
  all_goals
    rw [Map.get?_set] at hg
    split at hg
    · next heq =>
      rw [Option.some.injEq] at hg
      rw [heq, ← hg]
    · exact h name g hg

theorem named_foldl (groups : List RequirementGroup) {byName : Map String RequirementGroup} (h : Named byName) :
    Named (groups.foldl addGroup byName) := by
  induction groups generalizing byName with
  | nil => exact h
  | cons group groups ih => exact ih (h.addGroup group)

theorem named_groupsByName (toLowerCase : String → String) (text : String) (ownership : List RequirementOwnership) :
    Named (groupsByName toLowerCase text ownership) := by
  rw [groupsByName]
  generalize ownership.filter _ = rules
  have hfold : ∀ byName : Map String RequirementGroup, Named byName →
      Named (rules.foldl (fun byName rule => rule.groups.foldl addGroup byName) byName) := by
    induction rules with
    | nil => exact fun byName h => h
    | cons rule rules ih => exact fun byName h => ih _ (named_foldl rule.groups h)
  exact hfold .empty fun _ _ h => by cases h

theorem Named.nodup {byName : Map String RequirementGroup} (h : Named byName) :
    (byName.values.map (·.name)).Nodup := by
  have heq : byName.values.map (·.name) = byName.entries.map Prod.fst := by
    rw [Map.values, List.map_map]
    exact map_congr_left fun e he => h e.1 e.2 (Map.mem_entries_iff.mp he)
  exact heq ▸ byName.nodup

theorem nodup_distributedGroups (toLowerCase : String → String) (text : String) (ownership : List RequirementOwnership) :
    ((distributedGroupsForText toLowerCase text ownership).groups.map (·.name)).Nodup := by
  have hvalues := (named_groupsByName toLowerCase text ownership).nodup
  have hfilter : ((((groupsByName toLowerCase text ownership).values.filter fun group =>
      decide (group.owners ≠ [])).map (·.name))).Nodup :=
    hvalues.sublist (filter_sublist.map _)
  have hsorted : ((sortedGroups toLowerCase text ownership).map (·.name)).Nodup :=
    ((perm_insertionSort _ _).map _).nodup_iff.mpr hfilter
  exact hsorted.sublist ((take_sublist _ _).map _)

/-! ## Met -/

section

variable {toLowerCase : String → String} {cache : FileTextCache} {groups : List RequirementGroup}
  {enforcement test : List TraceLocation}

/-- The citations that count for the enforcement of a seam. -/
def validEnforcement (cache : FileTextCache) (enforcement : List TraceLocation) : List TraceLocation :=
  enforcement.filter (locationValid cache)

/-- The citations that count for the tests of a seam. -/
def validTests (cache : FileTextCache) (test : List TraceLocation) : List TraceLocation :=
  test.filter fun loc => isTestPath loc.file.toList && locationValid cache loc

section

variable (toLowerCase cache groups enforcement test)

/-- The citation that each seam has for its enforcement, under its name. -/
def enforcementMatches : Map String TraceLocation :=
  matchCitationsToGroups toLowerCase groups (validEnforcement cache enforcement) (·.owners)

/-- The citation that each seam has for its tests. -/
def testMatches : Map String TraceLocation :=
  matchCitationsToGroups toLowerCase groups (validTests cache test) (·.tests)

/-- The seams have distinct citations for their enforcement. -/
def IsEnforced (f : RequirementGroup → Option TraceLocation) : Prop :=
  IsSystem (MayCover toLowerCase groups (validEnforcement cache enforcement) (·.owners)) groups f

/-- The seams have distinct citations for their tests. -/
def IsTested (f : RequirementGroup → Option TraceLocation) : Prop :=
  IsSystem (MayCover toLowerCase groups (validTests cache test) (·.tests)) groups f

/-- Some seam is without a citation. -/
def uncovered (found : Map String TraceLocation) : Bool := !(groups.filter fun group => !found.has group.name).isEmpty

end

theorem uncovered_eq_false_iff {found : Map String TraceLocation} :
    uncovered groups found = false ↔ ∀ group ∈ groups, found.has group.name = true := by
  rw [uncovered, Bool.not_eq_false', List.isEmpty_iff, filter_eq_nil_iff]
  simp only [Bool.not_eq_true, Bool.not_eq_false']

theorem distributedClaim_disposition : (distributedClaim toLowerCase cache groups enforcement test).1 =
    if uncovered groups (enforcementMatches toLowerCase cache groups enforcement) ||
        uncovered groups (testMatches toLowerCase cache groups test) || (validTests cache test).isEmpty then
      .unverifiable
    else if predicateSignalFound (enforcementMatches toLowerCase cache groups enforcement).values cache then .met
    else .unverifiable := by
  unfold distributedClaim uncovered enforcementMatches testMatches validEnforcement validTests
  dsimp only
  split
  · rfl
  · split <;> rfl

theorem distributedClaim_eq_unverifiable (h : (distributedClaim toLowerCase cache groups enforcement test).1 ≠ .met) :
    (distributedClaim toLowerCase cache groups enforcement test).1 = .unverifiable := by
  rw [distributedClaim_disposition] at h ⊢
  split
  · rfl
  · next hcovered =>
    rw [if_neg hcovered] at h
    split at h
    · exact absurd rfl h
    · next hfound => rw [if_neg hfound]

/-- A claim is met when its lists have systems of citations and a predicate is near one that the matching has chosen. -/
theorem distributedClaim_eq_met_iff (hnames : (groups.map (·.name)).Nodup) (hgroups : groups ≠ []) :
    (distributedClaim toLowerCase cache groups enforcement test).1 = .met ↔
      (∃ f, IsEnforced toLowerCase cache groups enforcement f) ∧ (∃ f, IsTested toLowerCase cache groups test f) ∧
        ∃ loc ∈ (enforcementMatches toLowerCase cache groups enforcement).values, predicateNear cache loc = true := by
  have henforced : uncovered groups (enforcementMatches toLowerCase cache groups enforcement) = false ↔
      ∃ f, IsEnforced toLowerCase cache groups enforcement f :=
    uncovered_eq_false_iff.trans (matchCitationsToGroups_coversMost hnames).all
  have htested : uncovered groups (testMatches toLowerCase cache groups test) = false ↔
      ∃ f, IsTested toLowerCase cache groups test f :=
    uncovered_eq_false_iff.trans (matchCitationsToGroups_coversMost hnames).all
  -- a tested seam has a valid test
  have hvalid : (∃ f, IsTested toLowerCase cache groups test f) → (validTests cache test).isEmpty = false := by
    rintro ⟨f, hf, htotal⟩
    obtain ⟨group, hgroup⟩ := exists_mem_of_ne_nil _ hgroups
    obtain ⟨loc, hloc⟩ := Option.isSome_iff_exists.mp (htotal group hgroup)
    rw [isEmpty_eq_false_iff_exists_mem]
    exact ⟨loc, (hf.adj hloc).2.1⟩
  have hsignal : predicateSignalFound (enforcementMatches toLowerCase cache groups enforcement).values cache = true ↔
      ∃ loc ∈ (enforcementMatches toLowerCase cache groups enforcement).values, predicateNear cache loc = true := by
    rw [predicateSignalFound, any_eq_true]
  rw [distributedClaim_disposition, ← hsignal]
  constructor
  · intro hmet
    split at hmet
    · cases hmet
    · next hcovered =>
      simp only [Bool.or_eq_true, not_or, Bool.not_eq_true] at hcovered
      split at hmet
      · next hfound => exact ⟨henforced.mp hcovered.1.1, htested.mp hcovered.1.2, hfound⟩
      · cases hmet
  · rintro ⟨hsystem, hsystem', hfound⟩
    rw [henforced.mpr hsystem, htested.mpr hsystem', hvalid hsystem', hfound]
    rfl

end

/-! ## The first citation -/

section

variable {accepts : Nat → Nat → Bool} {count c : Nat} {owners : Map Nat Nat}

/-- A citation that some group has stays one that some group has. -/
theorem isSome_assign (g : Nat) (hc : (owners.get? c).isSome = true) :
    ((assign accepts count (count + 1) g ⟨[], owners⟩).2.citationToGroup.get? c).isSome = true := by
  have hout : Outcome (Accepts accepts count) (List.range count) g _ (assign accepts count (count + 1) g _) :=
    assign_outcome g ⟨[], owners⟩ (untried_lt_succ count owners)
  cases hr : (assign accepts count (count + 1) g ⟨[], owners⟩).1 with
  | true =>
    obtain ⟨cs, -, -, hrotate⟩ := hout.found hr
    have heq := congrFun hrotate c
    rw [MatchSearch.owner] at heq
    rw [heq]
    exact rotate_isSome hc
  | false =>
    rw [(hout.exhausted hr).1.owners]
    exact hc

theorem isSome_assignAll_zero {gs : List Nat} (hcount : 0 < count) (h : ∃ g ∈ gs, accepts g 0 = true) :
    ((assignAll accepts count gs).get? 0).isSome = true := by
  induction gs using List.reverseRecOn with
  | nil =>
    obtain ⟨g, hg, -⟩ := h
    exact absurd hg not_mem_nil
  | append_singleton gs g ih =>
    obtain ⟨k, hk, haccepts⟩ := h
    rw [assignAll, foldl_append]
    change ((assign accepts count (count + 1) g ⟨[], assignAll accepts count gs⟩).2.citationToGroup.get? 0).isSome = true
    rcases mem_append.mp hk with hk | hk
    · exact isSome_assign g (ih ⟨k, hk, haccepts⟩)
    · obtain rfl := mem_singleton.mp hk
      cases hzero : (assignAll accepts count gs).get? 0 with
      | some _ => exact isSome_assign k (hzero ▸ rfl)
      | none =>
        obtain ⟨n, rfl⟩ := Nat.exists_eq_add_one_of_ne_zero hcount.ne'
        have hfree : tryCitations accepts (assign accepts (n + 1) (n + 1)) k (List.range (n + 1))
            ⟨[], assignAll accepts (n + 1) gs⟩ =
              (true, ⟨[0], (assignAll accepts (n + 1) gs).set 0 k⟩) := by
          rw [range_succ_eq_map, tryCitations]
          simp only [contains_nil, haccepts, Bool.not_true, Bool.or_self, Bool.false_eq_true, if_false, hzero]
        rw [assign, hfree, Map.get?_set_self]
        rfl

end

/-! ## Walks -/

section

variable {accepts table : Nat → Nat → Bool} {k count fuel : Nat}

/-- `tryCitations` among citations of which one ends the search: `none` when the list comes to its end. -/
def walkCitations (accepts : Nat → Nat → Bool) (again : Nat → MatchSearch → Option MatchSearch) (g : Nat) :
    List Nat → MatchSearch → Option MatchSearch
  | [], _ => none
  | c :: rest, s =>
    if s.visited.contains c || !accepts g c then walkCitations accepts again g rest s
    else
      match s.citationToGroup.get? c with
      | none => some ⟨c :: s.visited, s.citationToGroup.set c g⟩
      | some prior =>
        (again prior ⟨c :: s.visited, s.citationToGroup⟩).map fun s => ⟨s.visited, s.citationToGroup.set c g⟩

/-- `assign` among the first `k` citations, when every call ends with one of them. -/
def walk (accepts : Nat → Nat → Bool) (k : Nat) : Nat → Nat → MatchSearch → Option MatchSearch
  | 0, _, _ => none
  | fuel + 1, g, s => walkCitations accepts (walk accepts k fuel) g (List.range k) s

/-- `assignAll` in walks. -/
def walkAll (accepts : Nat → Nat → Bool) (k : Nat) (groups : List Nat) (owners : Map Nat Nat) : Option (Map Nat Nat) :=
  groups.foldlM (fun owners g => (walk accepts k (k + 1) g ⟨[], owners⟩).map (·.citationToGroup)) owners

/-- Only the first `k` citations are taken, by the first `k` groups. -/
def Within (k : Nat) (owners : Map Nat Nat) : Prop := ∀ c g, owners.get? c = some g → c < k ∧ g < k

theorem Within.set {owners : Map Nat Nat} {c g : Nat} (h : Within k owners) (hc : c < k) (hg : g < k) :
    Within k (owners.set c g) := by
  intro d g' hd
  rw [Map.get?_set] at hd
  split at hd
  · next heq =>
    rw [Option.some.injEq] at hd
    exact ⟨heq ▸ hc, hd ▸ hg⟩
  · exact h d g' hd

/-- What the walk ends with is what the search ends with. -/
def Leads (k : Nat) (walk : Nat → MatchSearch → Option MatchSearch) (search : Nat → MatchSearch → Bool × MatchSearch) :
    Prop :=
  ∀ g s s', g < k → Within k s.citationToGroup → walk g s = some s' →
    search g s = (true, s') ∧ Within k s'.citationToGroup

theorem leads_citations {again : Nat → MatchSearch → Option MatchSearch}
    {again' : Nat → MatchSearch → Bool × MatchSearch} (hagree : ∀ g < k, ∀ c < k, table g c = accepts g c)
    (hagain : Leads k again again') {cs : List Nat} (hcs : ∀ c ∈ cs, c < k) (rest : List Nat) :
    Leads k (fun g => walkCitations table again g cs) (fun g => tryCitations accepts again' g (cs ++ rest)) := by
  intro g s s' hg hs hwalk
  induction cs with
  | nil => cases hwalk
  | cons c cs ih =>
    have hc : c < k := hcs c mem_cons_self
    simp only [walkCitations, hagree g hg c hc] at hwalk
    simp only [cons_append, tryCitations]
    split at hwalk
    · next hskip =>
      rw [if_pos hskip]
      exact ih (fun d hd => hcs d (mem_cons_of_mem _ hd)) hwalk
    · next htry =>
      rw [if_neg htry]
      cases howner : s.citationToGroup.get? c with
      | none =>
        rw [howner, Option.some.injEq] at hwalk
        subst hwalk
        exact ⟨rfl, hs.set hc hg⟩
      | some prior =>
        rw [howner] at hwalk
        obtain ⟨t, ht, rfl⟩ := Option.map_eq_some_iff.mp hwalk
        obtain ⟨heq, hwithin⟩ := hagain prior ⟨c :: s.visited, s.citationToGroup⟩ t (hs c prior howner).2 hs ht
        simp only [heq]
        exact ⟨trivial, hwithin.set hc hg⟩

theorem leads_walk (hagree : ∀ g < k, ∀ c < k, table g c = accepts g c) {fuel' : Nat} (hk : k ≤ count)
    (hfuel : fuel ≤ fuel') : Leads k (walk table k fuel) (assign accepts count fuel') := by
  induction fuel generalizing fuel' with
  | zero =>
    intro g s s' _ _ hwalk
    cases hwalk
  | succ fuel ih =>
    obtain ⟨n, rfl⟩ := Nat.exists_eq_add_one_of_ne_zero (Nat.pos_iff_ne_zero.mp (Nat.lt_of_lt_of_le fuel.succ_pos hfuel))
    have hrange : List.range count = List.range k ++ (List.range (count - k)).map (k + ·) := by
      rw [← range_add, Nat.add_sub_cancel' hk]
    have hcs : ∀ c ∈ List.range k, c < k := fun c hc => mem_range.mp hc
    have hleads := leads_citations hagree (ih (Nat.le_of_succ_le_succ hfuel)) hcs ((List.range (count - k)).map (k + ·))
    rw [← hrange] at hleads
    exact hleads

theorem walkAll_leads (hagree : ∀ g < k, ∀ c < k, table g c = accepts g c) (hk : k ≤ count) {gs : List Nat}
    (hgs : ∀ g ∈ gs, g < k) {owners owners' : Map Nat Nat} (hwithin : Within k owners)
    (h : walkAll table k gs owners = some owners') :
    gs.foldl (fun owners g => (assign accepts count (count + 1) g ⟨[], owners⟩).2.citationToGroup) owners = owners' ∧
      Within k owners' := by
  induction gs generalizing owners with
  | nil =>
    rw [walkAll, foldlM_nil] at h
    cases h
    exact ⟨rfl, hwithin⟩
  | cons g gs ih =>
    rw [walkAll, foldlM_cons] at h
    obtain ⟨owners₁, hfirst, hrest⟩ := Option.bind_eq_some_iff.mp h
    obtain ⟨s', hs', rfl⟩ := Option.map_eq_some_iff.mp hfirst
    obtain ⟨heq, hwithin'⟩ := leads_walk hagree hk (Nat.succ_le_succ hk) g ⟨[], owners⟩ s' (hgs g mem_cons_self)
      hwithin hs'
    rw [foldl_cons, heq]
    exact ih (fun g hg => hgs g (mem_cons_of_mem _ hg)) hwithin' hrest

end

/-- The entry of the matrix for a group and the citation at a place of the order. -/
def inOrder (rows : List (List Bool)) (order : List Nat) (g i : Nat) : Bool :=
  (rows.getD g []).getD (order.getD i 0) false

/-- Orders of the citations of a system, by their groups. -/
def walkOrders : Nat → List (List Nat)
  | 2 => [[1, 0]]
  | 3 => [[2, 1, 0], [0, 2, 1]]
  | 4 => [[3, 2, 1, 0], [3, 0, 2, 1], [3, 1, 0, 2], [0, 2, 3, 1], [1, 3, 2, 0]]
  | _ => []

/-- The groups walk to their citations in one of the orders. -/
def hasWalk (rows : List (List Bool)) (k : Nat) : Bool :=
  (walkOrders k).any fun order => (walkAll (inOrder rows order) k (List.range k) .empty).isSome

theorem hasWalk_two : ∀ a b, hasWalk [[true, a], [b, true]] 2 = true := by
  decide +kernel

theorem hasWalk_three : ∀ a b c d e f, hasWalk [[true, a, b], [c, true, d], [e, f, true]] 3 = true := by
  decide +kernel

instance hasWalk_four : Fact (∀ a b c d e f a' b' c' d' e' f',
    hasWalk [[true, a, b, c], [d, true, e, f], [a', b', true, c'], [d', e', f', true]] 4 = true) := ⟨by
  intro a b c d
  -- a check for each of the first entries, as all of them together take too much memory
  cases a <;> cases b <;> cases c <;> cases d <;> decide +kernel⟩

/-- Two to four groups that accept a citation each walk to their citations in some order of these. -/
theorem exists_walk {k : Nat} (hmin : 2 ≤ k) (hmax : k ≤ 4) {matrix : Nat → Nat → Bool}
    (hdiag : ∀ g < k, matrix g g = true) : ∃ order ∈ walkOrders k,
      (walkAll (inOrder ((List.range k).map fun g => (List.range k).map (matrix g)) order) k (List.range k)
        .empty).isSome = true := by
  rw [← any_eq_true]
  interval_cases k
  · have hrows : (List.range 2).map (fun g => (List.range 2).map (matrix g)) =
        [[matrix 0 0, matrix 0 1], [matrix 1 0, matrix 1 1]] := rfl
    rw [hrows, hdiag 0 (by decide), hdiag 1 (by decide)]
    exact hasWalk_two _ _
  · have hrows : (List.range 3).map (fun g => (List.range 3).map (matrix g)) =
        [[matrix 0 0, matrix 0 1, matrix 0 2], [matrix 1 0, matrix 1 1, matrix 1 2],
          [matrix 2 0, matrix 2 1, matrix 2 2]] := rfl
    rw [hrows, hdiag 0 (by decide), hdiag 1 (by decide), hdiag 2 (by decide)]
    exact hasWalk_three _ _ _ _ _ _
  · have hrows : (List.range 4).map (fun g => (List.range 4).map (matrix g)) =
        [[matrix 0 0, matrix 0 1, matrix 0 2, matrix 0 3], [matrix 1 0, matrix 1 1, matrix 1 2, matrix 1 3],
          [matrix 2 0, matrix 2 1, matrix 2 2, matrix 2 3], [matrix 3 0, matrix 3 1, matrix 3 2, matrix 3 3]] := rfl
    rw [hrows, hdiag 0 (by decide), hdiag 1 (by decide), hdiag 2 (by decide), hdiag 3 (by decide)]
    exact hasWalk_four.out _ _ _ _ _ _ _ _ _ _ _ _

theorem walkOrders_perm {k : Nat} (hmin : 2 ≤ k) (hmax : k ≤ 4) : ∀ order ∈ walkOrders k, order.Perm (List.range k) := by
  interval_cases k
  all_goals decide

theorem getElem?_filterMap {α β : Type} {f : α → Option β} {as : List α} (h : ∀ a ∈ as, (f a).isSome = true) (i : Nat) :
    (as.filterMap f)[i]? = as[i]?.bind f := by
  induction as generalizing i with
  | nil => rfl
  | cons a as ih =>
    obtain ⟨b, hb⟩ := Option.isSome_iff_exists.mp (h a mem_cons_self)
    rw [filterMap_cons_some hb]
    cases i with
    | zero => exact hb.symm
    | succ i => exact ih (fun a ha => h a (mem_cons_of_mem _ ha)) i

section

variable {toLowerCase : String → String} {groups : List RequirementGroup} {citations : List TraceLocation}
  {patternsFor : RequirementGroup → List String}

/-- The citations of a system can be ordered such that the matching has no others, whatever is listed after them. -/
theorem exists_order (hmin : 2 ≤ groups.length) (hmax : groups.length ≤ 4) (hnames : (groups.map (·.name)).Nodup)
    {f : RequirementGroup → Option TraceLocation}
    (hf : IsSystem (MayCover toLowerCase groups citations patternsFor) groups f) :
    ∃ cs : List TraceLocation, cs.Nodup ∧ (∀ loc ∈ cs, ∃ group, f group = some loc) ∧
      ∀ citations' rest, citations'.eraseDups = cs ++ rest →
        ∀ loc ∈ (matchCitationsToGroups toLowerCase groups citations' patternsFor).values, loc ∈ cs := by
  have hchosen := getElem?_filterMap hf.2
  set chosen := groups.filterMap f
  have hnodup : chosen.Nodup := hnames.of_map.filterMap fun g g' loc hg hg' => hf.1.inj hg hg'
  let matrix (g j : Nat) : Bool :=
    groups[g]?.any fun group => chosen[j]?.any fun loc => citationMatchesPatterns toLowerCase loc (patternsFor group)
  have hat : ∀ g < groups.length, ∃ group loc, groups[g]? = some group ∧ f group = some loc ∧ chosen[g]? = some loc := by
    intro g hg
    have hgroup := List.getElem?_eq_getElem hg
    obtain ⟨loc, hloc⟩ := Option.isSome_iff_exists.mp (hf.2 groups[g] (getElem_mem hg))
    exact ⟨groups[g], loc, hgroup, hloc, by rw [hchosen, hgroup, Option.bind_some, hloc]⟩
  have hdiag : ∀ g < groups.length, matrix g g = true := by
    intro g hg
    obtain ⟨group, loc, hgroup, hloc, hc⟩ := hat g hg
    simp only [matrix, hgroup, hc, Option.any_some]
    exact (hf.1.adj hloc).2.2
  obtain ⟨order, hmem, hwalk⟩ := exists_walk hmin hmax hdiag
  obtain ⟨owners, howners⟩ := Option.isSome_iff_exists.mp hwalk
  have hperm := walkOrders_perm hmin hmax order hmem
  have hlength : order.length = groups.length := hperm.length_eq.trans length_range
  have hless : ∀ j ∈ order, j < groups.length := fun j hj => mem_range.mp (hperm.subset hj)
  have hcs : ∀ i : Nat, (order.filterMap fun j => chosen[j]?)[i]? = order[i]?.bind fun j => chosen[j]? := by
    refine getElem?_filterMap fun j hj => ?_
    obtain ⟨_, loc, -, -, hc⟩ := hat j (hless j hj)
    rw [hc]
    rfl
  refine ⟨order.filterMap fun j => chosen[j]?, ?_, ?_, ?_⟩
  · refine (hperm.nodup_iff.mpr nodup_range).filterMap fun i j loc hi hj => ?_
    exact (List.getElem?_inj (List.getElem?_eq_some_iff.mp hi).1 hnodup).mp (hi.trans hj.symm)
  · intro loc hloc
    obtain ⟨j, -, hj⟩ := mem_filterMap.mp hloc
    obtain ⟨group, -, hgroup⟩ := mem_filterMap.mp (mem_of_getElem? hj)
    exact ⟨group, hgroup⟩
  · intro citations' rest heq loc hloc
    have hplace : ∀ c (hc : c < order.length), ∃ loc, chosen[order[c]]? = some loc ∧
        citations'.eraseDups[c]? = some loc ∧ loc ∈ order.filterMap fun j => chosen[j]? := by
      intro c hc
      obtain ⟨_, loc, -, -, hloc⟩ := hat _ (hless _ (getElem_mem hc))
      have hsome : (order.filterMap fun j => chosen[j]?)[c]? = some loc := by
        rw [hcs, List.getElem?_eq_getElem hc, Option.bind_some, hloc]
      refine ⟨loc, hloc, ?_, mem_of_getElem? hsome⟩
      rw [heq, List.getElem?_append_left (List.getElem?_eq_some_iff.mp hsome).1, hsome]
    have hagree : ∀ g < groups.length, ∀ c < groups.length,
        inOrder ((List.range groups.length).map fun g => (List.range groups.length).map (matrix g)) order g c =
          acceptsCitation toLowerCase groups citations' patternsFor g c := by
      intro g hg c hc
      have hc' : c < order.length := hlength ▸ hc
      have hj := hless _ (getElem_mem hc')
      obtain ⟨loc, hchosen, hloc, -⟩ := hplace c hc'
      rw [acceptsCitation, hloc, inOrder]
      simp only [getD_eq_getElem?_getD, List.getElem?_map, List.getElem?_range hg, List.getElem?_eq_getElem hc',
        Option.map_some, Option.getD_some, List.getElem?_range hj, matrix, hchosen, Option.any_some]
      cases groups[g]? <;> rfl
    have hcount : groups.length ≤ citations'.eraseDups.length := by
      obtain ⟨_, -, hlast, -⟩ := hplace (groups.length - 1) (by omega)
      have hless := (List.getElem?_eq_some_iff.mp hlast).1
      omega
    obtain ⟨hall, hwithin⟩ := walkAll_leads hagree hcount (fun g hg => mem_range.mp hg) (fun _ _ h => by cases h) howners
    obtain ⟨name, hname⟩ := Map.mem_values_iff.mp hloc
    obtain ⟨g, c, _, -, -, howner, hc⟩ := (get?_matchCitationsToGroups hnames).mp hname
    have howner : owners.get? c = some g := hall ▸ howner
    obtain ⟨loc', -, hloc', hmem'⟩ := hplace c (hlength ▸ (hwithin c g howner).1)
    rw [hc, Option.some.injEq] at hloc'
    exact hloc' ▸ hmem'

/-- A citation that is listed first and that some group accepts is in the matching. -/
theorem mem_values_first (hnames : (groups.map (·.name)).Nodup) {group : RequirementGroup} {loc : TraceLocation}
    {rest : List TraceLocation} (heq : citations.eraseDups = loc :: rest)
    (hmay : MayCover toLowerCase groups citations patternsFor group loc) :
    loc ∈ (matchCitationsToGroups toLowerCase groups citations patternsFor).values := by
  obtain ⟨g, hg⟩ := List.getElem?_of_mem hmay.1
  have hzero : citations.eraseDups[0]? = some loc := by rw [heq]; rfl
  have haccepts : Accepts (acceptsCitation toLowerCase groups citations patternsFor) citations.eraseDups.length g 0 :=
    accepts_iff.mpr ⟨group, loc, hg, hzero, hmay⟩
  have hsome := @isSome_assignAll_zero _ _ (List.range groups.length) haccepts.1
    ⟨g, mem_range.mpr (List.getElem?_eq_some_iff.mp hg).1, haccepts.2⟩
  obtain ⟨g', howner⟩ := Option.isSome_iff_exists.mp hsome
  have hadj := (citationOwners_settled toLowerCase groups citations patternsFor).matching.adj howner
  obtain ⟨group', loc', hg', hloc', -⟩ := accepts_iff.mp hadj
  rw [hzero, Option.some.injEq] at hloc'
  subst hloc'
  exact Map.mem_values_iff.mpr
    ⟨group'.name, (get?_matchCitationsToGroups hnames).mpr ⟨g', 0, group', hg', rfl, howner, hzero⟩⟩

theorem mem_of_mem_values (hnames : (groups.map (·.name)).Nodup) {loc : TraceLocation}
    (h : loc ∈ (matchCitationsToGroups toLowerCase groups citations patternsFor).values) :
    ∃ group, MayCover toLowerCase groups citations patternsFor group loc := by
  obtain ⟨name, hname⟩ := Map.mem_values_iff.mp h
  obtain ⟨group, -, hmay⟩ := (matchCitationsToGroups_coversMost hnames).own hname
  exact ⟨group, hmay⟩

end

/-! ## The order of citations -/

/-- Every order of the two lists gives the same disposition. -/
def OrderFree (disposition : Value → Value → TraceDisposition) (enforcement test : List Value) : Prop :=
  ∀ enforcement' test' : List Value, enforcement'.Perm enforcement → test'.Perm test →
    disposition (.array enforcement') (.array test') = disposition (.array enforcement) (.array test)

/-- Every seam is tested, copies alone can cover the enforcement of all seams, and there is also a citation for one of
them that has a predicate near. -/
structure OrderMatters (toLowerCase : String → String) (cache : FileTextCache) (groups : List RequirementGroup)
    (enforcement test : List TraceLocation) : Prop where
  tested : ∃ f, IsTested toLowerCase cache groups test f
  copied : ∃ f, IsEnforced toLowerCase cache groups enforcement f ∧
    ∀ {group loc}, f group = some loc → predicateNear cache loc = false
  checked : ∃ group loc, MayCover toLowerCase groups (validEnforcement cache enforcement) (·.owners) group loc ∧
    predicateNear cache loc = true

section

variable {toLowerCase : String → String} {cache : FileTextCache} {groups : List RequirementGroup}
  {citations citations' : List TraceLocation} {patternsFor : RequirementGroup → List String}

theorem MayCover.of_mem_iff (h : ∀ loc, loc ∈ citations ↔ loc ∈ citations') {group : RequirementGroup}
    {loc : TraceLocation} (hmay : MayCover toLowerCase groups citations patternsFor group loc) :
    MayCover toLowerCase groups citations' patternsFor group loc := ⟨hmay.1, (h loc).mp hmay.2.1, hmay.2.2⟩

theorem IsSystem.of_mem_iff (h : ∀ loc, loc ∈ citations ↔ loc ∈ citations')
    {f : RequirementGroup → Option TraceLocation} (hf : IsSystem (MayCover toLowerCase groups citations patternsFor) groups f) :
    IsSystem (MayCover toLowerCase groups citations' patternsFor) groups f :=
  ⟨⟨fun hloc => (hf.1.adj hloc).of_mem_iff h, hf.1.inj⟩, hf.2⟩

theorem parseLocations_array {items : List Value} (h : (items.filterMap parseLocation).length ≤ MAX_TRACE_LOCATIONS) :
    parseLocations (.array items) = items.filterMap parseLocation := take_of_length_le h

theorem validEnforcement_filterMap (items : List Value) : validEnforcement cache (items.filterMap parseLocation) =
    items.filterMap fun item => (parseLocation item).filter (locationValid cache) := filter_filterMap ..

variable {enforcement enforcement' test test' : List Value}

/-- A reordering of the lists makes a claim met when the matching it leads to has a citation with a predicate near. -/
theorem met_iff_of_perm (hnames : (groups.map (·.name)).Nodup) (hgroups : groups ≠ [])
    (he : enforcement'.Perm enforcement) (ht : test'.Perm test) :
    (distributedClaim toLowerCase cache groups (enforcement'.filterMap parseLocation)
        (test'.filterMap parseLocation)).1 = .met ↔
      (∃ f, IsEnforced toLowerCase cache groups (enforcement.filterMap parseLocation) f) ∧
        (∃ f, IsTested toLowerCase cache groups (test.filterMap parseLocation) f) ∧
        ∃ loc ∈ (enforcementMatches toLowerCase cache groups (enforcement'.filterMap parseLocation)).values,
          predicateNear cache loc = true := by
  have hmem : ∀ loc, loc ∈ validEnforcement cache (enforcement'.filterMap parseLocation) ↔
      loc ∈ validEnforcement cache (enforcement.filterMap parseLocation) := fun loc =>
    ((he.filterMap parseLocation).filter _).mem_iff
  have hmem' : ∀ loc, loc ∈ validTests cache (test'.filterMap parseLocation) ↔
      loc ∈ validTests cache (test.filterMap parseLocation) := fun loc =>
    ((ht.filterMap parseLocation).filter _).mem_iff
  have henforced : (∃ f, IsEnforced toLowerCase cache groups (enforcement'.filterMap parseLocation) f) ↔
      ∃ f, IsEnforced toLowerCase cache groups (enforcement.filterMap parseLocation) f :=
    exists_congr fun f => ⟨.of_mem_iff hmem, .of_mem_iff fun loc => (hmem loc).symm⟩
  have htested : (∃ f, IsTested toLowerCase cache groups (test'.filterMap parseLocation) f) ↔
      ∃ f, IsTested toLowerCase cache groups (test.filterMap parseLocation) f :=
    exists_congr fun f => ⟨.of_mem_iff hmem', .of_mem_iff fun loc => (hmem' loc).symm⟩
  rw [distributedClaim_eq_met_iff hnames hgroups, henforced, htested]

/-- Some order leaves the claim unverifiable when copies cover all seams. -/
theorem exists_perm_not_met (hmin : 2 ≤ groups.length) (hmax : groups.length ≤ 4) (hnames : (groups.map (·.name)).Nodup)
    (h : OrderMatters toLowerCase cache groups (enforcement.filterMap parseLocation) (test.filterMap parseLocation)) :
    ∃ enforcement' : List Value, enforcement'.Perm enforcement ∧
      (distributedClaim toLowerCase cache groups (enforcement'.filterMap parseLocation)
        (test.filterMap parseLocation)).1 ≠ .met := by
  obtain ⟨f, hf, hcopies⟩ := h.copied
  obtain ⟨cs, hnodup, hcs, hvalues⟩ := exists_order hmin hmax hnames hf
  obtain ⟨enforcement', rest, hperm, heq⟩ := exists_perm_eraseDups
    (fun item => (parseLocation item).filter (locationValid cache)) hnodup enforcement fun loc hloc => by
      obtain ⟨group, hgroup⟩ := hcs loc hloc
      rw [← validEnforcement_filterMap]
      exact (hf.1.adj hgroup).2.1
  refine ⟨enforcement', hperm, fun hmet => ?_⟩
  have hgroups : groups ≠ [] := ne_nil_of_length_pos (by omega)
  obtain ⟨-, -, loc, hloc, hnear⟩ := (met_iff_of_perm hnames hgroups hperm (.refl test)).mp hmet
  rw [← validEnforcement_filterMap] at heq
  obtain ⟨group, hgroup⟩ := hcs loc (hvalues _ rest heq loc hloc)
  rw [hcopies hgroup] at hnear
  cases hnear

/-- Some order makes the claim met when a seam accepts a citation with a predicate near. -/
theorem exists_perm_met (hnames : (groups.map (·.name)).Nodup) (hgroups : groups ≠ [])
    (h : OrderMatters toLowerCase cache groups (enforcement.filterMap parseLocation) (test.filterMap parseLocation)) :
    ∃ enforcement' : List Value, enforcement'.Perm enforcement ∧
      (distributedClaim toLowerCase cache groups (enforcement'.filterMap parseLocation)
        (test.filterMap parseLocation)).1 = .met := by
  obtain ⟨group, loc, hmay, hnear⟩ := h.checked
  obtain ⟨enforcement', rest, hperm, heq⟩ := exists_perm_eraseDups
    (fun item => (parseLocation item).filter (locationValid cache)) (nodup_singleton loc) enforcement fun d hd => by
      rw [mem_singleton.mp hd, ← validEnforcement_filterMap]
      exact hmay.2.1
  rw [← validEnforcement_filterMap] at heq
  refine ⟨enforcement', hperm, (met_iff_of_perm hnames hgroups hperm (.refl test)).mpr ?_⟩
  refine ⟨h.copied.imp fun f hf => hf.1, h.tested, loc, ?_, hnear⟩
  refine mem_values_first hnames heq (hmay.of_mem_iff fun d => ?_)
  exact ((hperm.symm.filterMap parseLocation).filter _).mem_iff

theorem orderFree_claim_iff (hmin : 2 ≤ groups.length) (hmax : groups.length ≤ 4) (hnames : (groups.map (·.name)).Nodup) :
    (∀ enforcement' test' : List Value, enforcement'.Perm enforcement → test'.Perm test →
        (distributedClaim toLowerCase cache groups (enforcement'.filterMap parseLocation)
          (test'.filterMap parseLocation)).1 =
        (distributedClaim toLowerCase cache groups (enforcement.filterMap parseLocation)
          (test.filterMap parseLocation)).1) ↔
      ¬ OrderMatters toLowerCase cache groups (enforcement.filterMap parseLocation) (test.filterMap parseLocation) := by
  have hgroups : groups ≠ [] := ne_nil_of_length_pos (by omega)
  constructor
  · intro hfree h
    obtain ⟨e₁, hperm₁, hnot⟩ := exists_perm_not_met hmin hmax hnames h
    obtain ⟨e₂, hperm₂, hmet⟩ := exists_perm_met hnames hgroups h
    rw [hfree e₁ test hperm₁ (.refl _), ← hfree e₂ test hperm₂ (.refl _)] at hnot
    exact hnot hmet
  · intro h e' t' he ht
    -- a claim that is met in one of two orders is met in the other one
    have hsame : ∀ {e₁ e₂ t₁ t₂ : List Value}, e₁.Perm enforcement → e₂.Perm enforcement → t₁.Perm test → t₂.Perm test →
        (distributedClaim toLowerCase cache groups (e₁.filterMap parseLocation) (t₁.filterMap parseLocation)).1 = .met →
        (distributedClaim toLowerCase cache groups (e₂.filterMap parseLocation) (t₂.filterMap parseLocation)).1 = .met := by
      intro e₁ e₂ t₁ t₂ he₁ he₂ ht₁ ht₂ hmet
      obtain ⟨⟨f, hf⟩, htested, loc, hloc, hnear⟩ := (met_iff_of_perm hnames hgroups he₁ ht₁).mp hmet
      refine (met_iff_of_perm hnames hgroups he₂ ht₂).mpr ⟨⟨f, hf⟩, htested, ?_⟩
      by_contra hnone
      push Not at hnone
      have hmem : ∀ {e : List Value}, e.Perm enforcement → ∀ d, d ∈ validEnforcement cache (e.filterMap parseLocation) ↔
          d ∈ validEnforcement cache (enforcement.filterMap parseLocation) := fun he d =>
        ((he.filterMap parseLocation).filter _).mem_iff
      have hmost := @matchCitationsToGroups_coversMost toLowerCase groups
        (validEnforcement cache (e₂.filterMap parseLocation)) (·.owners) hnames
      have hsystem := isSystem_of_covered hnames hmost.own hmost.once
        (hmost.all.mpr ⟨f, hf.of_mem_iff fun d => (hmem he₂ d).symm⟩)
      refine h ⟨htested, ⟨_, hsystem.of_mem_iff (hmem he₂), fun {group d} hd => ?_⟩, ?_⟩
      · simp only [Option.ite_none_right_eq_some] at hd
        exact eq_false_of_ne_true (hnone d (Map.mem_values_iff.mpr ⟨group.name, hd.2⟩))
      · obtain ⟨group, hmay⟩ := mem_of_mem_values hnames hloc
        exact ⟨group, loc, hmay.of_mem_iff (hmem he₁), hnear⟩
    by_cases hmet : (distributedClaim toLowerCase cache groups (enforcement.filterMap parseLocation)
        (test.filterMap parseLocation)).1 = .met
    · rw [hmet]
      exact hsame (.refl _) he (.refl _) ht hmet
    · rw [distributedClaim_eq_unverifiable hmet]
      exact distributedClaim_eq_unverifiable fun h => hmet (hsame he (.refl _) ht (.refl _) h)

/-- Citations are matched as well as they can be, for any seams; the disposition of a claim is the same for every order
of its citations unless its seams are within the cap and the order matters for them. -/
theorem seams_order_iff (toLowerCase : String → String) (cache : FileTextCache) :
    (∀ (groups : List RequirementGroup) (citations : List TraceLocation) (patternsFor : RequirementGroup → List String),
      (groups.map (·.name)).Nodup →
        CoversMost (MayCover toLowerCase groups citations patternsFor) groups
          (matchCitationsToGroups toLowerCase groups citations patternsFor)) ∧
      ∀ (text : String) (ownership : List RequirementOwnership) (enforcement test : List Value),
        MIN_DISTRIBUTED_GROUPS ≤ (distributedGroupsForText toLowerCase text ownership).groups.length →
        (enforcement.filterMap parseLocation).length ≤ MAX_TRACE_LOCATIONS →
        (test.filterMap parseLocation).length ≤ MAX_TRACE_LOCATIONS →
          (OrderFree (fun enforcement test => (distributedDisposition toLowerCase cache
              (distributedGroupsForText toLowerCase text ownership) enforcement test).1) enforcement test ↔
            (distributedGroupsForText toLowerCase text ownership).overflow = true ∨
              ¬ OrderMatters toLowerCase cache (distributedGroupsForText toLowerCase text ownership).groups
                (enforcement.filterMap parseLocation) (test.filterMap parseLocation)) := by
  refine ⟨fun groups citations patternsFor hnames => matchCitationsToGroups_coversMost hnames, ?_⟩
  intro text ownership enforcement test hmin henforcement htest
  have hnames := nodup_distributedGroups toLowerCase text ownership
  cases hoverflow : (distributedGroupsForText toLowerCase text ownership).overflow with
  | true =>
    refine iff_of_true (fun e t _ _ => ?_) (.inl rfl)
    simp only [distributedDisposition, hoverflow, if_true]
  | false =>
    have hmax : (distributedGroupsForText toLowerCase text ownership).groups.length ≤ 4 := by
      have hsorted : ¬ MAX_GROUPS_PER_RULE < (sortedGroups toLowerCase text ownership).length := of_decide_eq_false hoverflow
      have hle := length_take_le' MAX_DECLARED_GROUPS_PER_RULE (sortedGroups toLowerCase text ownership)
      exact hle.trans (Nat.not_lt.mp hsorted)
    have hparse : ∀ {items items' : List Value}, items'.Perm items →
        (items.filterMap parseLocation).length ≤ MAX_TRACE_LOCATIONS →
          parseLocations (.array items') = items'.filterMap parseLocation := fun hperm h =>
      parseLocations_array ((hperm.filterMap parseLocation).length_eq ▸ h)
    rw [← orderFree_claim_iff hmin hmax hnames]
    simp only [Bool.false_eq_true, false_or]
    refine forall₂_congr fun e t => forall₂_congr fun he ht => ?_
    simp only [distributedDisposition, hoverflow, Bool.false_eq_true, if_false]
    rw [hparse he henforcement, hparse ht htest, hparse (.refl _) henforcement, hparse (.refl _) htest]

end

/-! ## Two seams -/

/-- One seam in the files `a` and `b`, one in `c`. -/
def twoSeams : List RequirementOwnership :=
  [⟨["q"], [], [⟨"g", ["a", "b"], ["t.test.ts"]⟩, ⟨"h", ["c"], ["u.test.ts"]⟩]⟩]

/-- Files of one line, of which only `a` compares anything. -/
def citedFiles : FileTextCache := ⟨fun file => some [(if file = "a" then "x > y" else "x = y").toList]⟩

def citation (file : String) : Value := .object [("file", .string file), ("line", .number 1)]

/-- Without `a` there are only copies, in any order. -/
theorem copies_orderFree : OrderFree (fun enforcement test => (distributedDisposition id citedFiles
    (distributedGroupsForText id "q" twoSeams) enforcement test).1) [citation "b", citation "c"]
    [citation "t.test.ts", citation "u.test.ts"] := by
  refine ((seams_order_iff id citedFiles).2 "q" twoSeams _ _ (by decide +kernel) (by decide +kernel)
    (by decide +kernel)).mpr (.inr ?_)
  rintro ⟨-, -, group, loc, hmay, hnear⟩
  have hcitations : validEnforcement citedFiles ([citation "b", citation "c"].filterMap parseLocation) =
      [⟨"b", 1⟩, ⟨"c", 1⟩] := by decide +kernel
  have hcopies : ∀ loc ∈ ([⟨"b", 1⟩, ⟨"c", 1⟩] : List TraceLocation), predicateNear citedFiles loc = false := by
    decide +kernel
  rw [hcopies loc (hcitations ▸ hmay.2.1)] at hnear
  cases hnear

/-- With `a` cited before `b` the claim is met, after it the claim is unverifiable. -/
theorem seams_not_orderFree : ¬ OrderFree (fun enforcement test => (distributedDisposition id citedFiles
    (distributedGroupsForText id "q" twoSeams) enforcement test).1) [citation "a", citation "b", citation "c"]
    [citation "t.test.ts", citation "u.test.ts"] := by
  intro h
  have hfirst : (distributedDisposition id citedFiles (distributedGroupsForText id "q" twoSeams)
      (.array [citation "a", citation "b", citation "c"]) (.array [citation "t.test.ts", citation "u.test.ts"])).1 =
      .met := by decide +kernel
  have hsecond : (distributedDisposition id citedFiles (distributedGroupsForText id "q" twoSeams)
      (.array [citation "b", citation "a", citation "c"]) (.array [citation "t.test.ts", citation "u.test.ts"])).1 =
      .unverifiable := by decide +kernel
  have heq := h [citation "b", citation "a", citation "c"] _ (.swap _ _ _) (.refl _)
  simp only [hfirst, hsecond] at heq
  cases heq

end PrReviewer.Enforcement
