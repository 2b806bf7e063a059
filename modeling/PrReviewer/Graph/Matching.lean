import Mathlib.Data.List.Nodup
import Mathlib.Data.List.Perm.Subperm
import Mathlib.Data.Set.Basic

/-!
# Matchings of a bipartite graph

`owner` gives some of the right vertices to left ones. `Augments` is an augmenting path as a search finds it, from a
left vertex that has nothing; `rotate` hands its vertices on. A search that finds none leaves a `Stuck` set behind: left
vertices whose neighbours all belong to left vertices of the set. No augmenting path meets a stuck set, so it stays one
(`Stuck.rotate`), and a matching in which every left vertex without a right one is stuck is a maximum one
(`Stuck.covers_most`).
-/

open List

namespace Graph

variable {α β : Type} {adj : α → β → Prop} {owner : β → Option α} {g h : α} {cs : List β}

/-- Every right vertex belongs to a neighbour of its own. -/
structure IsMatching (adj : α → β → Prop) (owner : β → Option α) : Prop where
  adj : ∀ {c g}, owner c = some g → adj g c
  inj : ∀ {c c' g}, owner c = some g → owner c' = some g → c = c'

/-- An augmenting path from `g`, as the list of its right vertices: the owner of each is the left vertex that goes on to
the next, and the last one is free. -/
inductive Augments (adj : α → β → Prop) (owner : β → Option α) : α → List β → Prop where
  | free {g c} (hadj : adj g c) (hfree : owner c = none) : Augments adj owner g [c]
  | step {g h c cs} (hadj : adj g c) (howner : owner c = some h) (hfresh : c ∉ cs) (hrest : Augments adj owner h cs) :
    Augments adj owner g (c :: cs)

section

variable [DecidableEq β]

/-- The owners after the path has been handed on. -/
def rotate (owner : β → Option α) : α → List β → β → Option α
  | _, [] => owner
  | g, c :: cs =>
    match owner c with
    | none => Function.update owner c (some g)
    | some h => Function.update (rotate owner h cs) c (some g)

/-! ## Augmenting paths -/

theorem rotate_of_free {c : β} (h : owner c = none) : rotate owner g (c :: cs) = Function.update owner c (some g) := by
  simp only [rotate, h]

theorem rotate_of_owner {c : β} {k : α} (hc : owner c = some k) :
    rotate owner g (c :: cs) = Function.update (rotate owner k cs) c (some g) := by
  simp only [rotate, hc]

theorem rotate_of_not_mem {c : β} (hc : c ∉ cs) : rotate owner g cs c = owner c := by
  induction cs generalizing g with
  | nil => rfl
  | cons d ds ih =>
    rw [mem_cons, not_or] at hc
    cases hd : owner d with
    | none =>
      simp only [rotate, hd]
      exact Function.update_of_ne hc.1 _ _
    | some h =>
      simp only [rotate, hd]
      rw [Function.update_of_ne hc.1]
      exact ih hc.2

theorem rotate_isSome {c : β} (hc : (owner c).isSome = true) : (rotate owner g cs c).isSome = true := by
  induction cs generalizing g with
  | nil => exact hc
  | cons d ds ih =>
    by_cases hcd : c = d
    · subst hcd
      obtain ⟨k, hk⟩ := Option.isSome_iff_exists.mp hc
      rw [rotate_of_owner hk, Function.update_self]
      rfl
    · cases hd : owner d with
      | none => rwa [rotate_of_free hd, Function.update_of_ne hcd]
      | some k =>
        rw [rotate_of_owner hd, Function.update_of_ne hcd]
        exact ih

/-- The vertices of the path belong to its start and to those that owned one of them. -/
theorem Augments.owners (hpath : Augments adj owner g cs) (h : α) :
    (∃ c ∈ cs, rotate owner g cs c = some h) ↔ h = g ∨ ∃ c ∈ cs, owner c = some h := by
  induction hpath with
  | @free g c hadj hfree =>
    simp [rotate, hfree, eq_comm]
  | @step g k c cs hadj howner hfresh hrest ih =>
    have hold : ∀ d ∈ cs, rotate owner g (c :: cs) d = rotate owner k cs d := by
      intro d hd
      have hne : d ≠ c := by
        rintro rfl
        exact hfresh hd
      simp only [rotate, howner]
      exact Function.update_of_ne hne _ _
    have hnew : rotate owner g (c :: cs) c = some g := by
      simp only [rotate, howner]
      exact Function.update_self _ _ _
    have htail : (∃ d ∈ cs, rotate owner g (c :: cs) d = some h) ↔ h = k ∨ ∃ d ∈ cs, owner d = some h := by
      rw [← ih]
      exact exists_congr fun d => and_congr_right fun hd => by rw [hold d hd]
    rw [exists_mem_cons_iff, exists_mem_cons_iff, htail, hnew, howner, Option.some.injEq, Option.some.injEq]
    constructor
    · rintro (rfl | rfl | hrest)
      · exact .inl rfl
      · exact .inr (.inl rfl)
      · exact .inr (.inr hrest)
    · rintro (rfl | rfl | hrest)
      · exact .inl rfl
      · exact .inr (.inl rfl)
      · exact .inr (.inr hrest)

/-- The path gives its vertices to different owners. -/
theorem Augments.injOn (hm : IsMatching adj owner) (hpath : Augments adj owner g cs) (hg : ∀ c ∈ cs, owner c ≠ some g)
    {c c' : β} (hc : c ∈ cs) (hc' : c' ∈ cs) {h : α} (howner : rotate owner g cs c = some h)
    (howner' : rotate owner g cs c' = some h) : c = c' := by
  induction hpath generalizing c c' h with
  | free =>
    rw [mem_singleton.mp hc, mem_singleton.mp hc']
  | @step g k d cs hadj hd hfresh hrest ih =>
    have hk : ∀ e ∈ cs, owner e ≠ some k := by
      intro e he hek
      rw [hm.inj hek hd] at he
      exact hfresh he
    have hgk : g ≠ k := by
      rintro rfl
      exact hg d mem_cons_self hd
    have hold : ∀ e ∈ cs, rotate owner g (d :: cs) e = rotate owner k cs e := by
      intro e he
      have hne : e ≠ d := by
        rintro rfl
        exact hfresh he
      simp only [rotate, hd]
      exact Function.update_of_ne hne _ _
    have hnew : rotate owner g (d :: cs) d = some g := by
      simp only [rotate, hd]
      exact Function.update_self _ _ _
    -- the first vertex belongs to `g`, which owns no other
    have hother : ∀ e ∈ cs, rotate owner k cs e ≠ some g := by
      intro e he heg
      rcases (hrest.owners g).mp ⟨e, he, heg⟩ with h | ⟨e', he', h⟩
      · exact hgk h
      · exact hg e' (mem_cons_of_mem _ he') h
    rcases mem_cons.mp hc with hfirst | hin <;> rcases mem_cons.mp hc' with hfirst' | hin'
    · rw [hfirst, hfirst']
    · rw [hfirst, hnew, Option.some.injEq] at howner
      subst howner
      rw [hold c' hin'] at howner'
      exact absurd howner' (hother c' hin')
    · rw [hfirst', hnew, Option.some.injEq] at howner'
      subst howner'
      rw [hold c hin] at howner
      exact absurd howner (hother c hin)
    · rw [hold c hin] at howner
      rw [hold c' hin'] at howner'
      exact ih hk hin hin' howner howner'

theorem Augments.adj_rotate (hpath : Augments adj owner g cs) {c : β} (hc : c ∈ cs)
    (howner : rotate owner g cs c = some h) : adj h c := by
  induction hpath with
  | @free g d hadj hfree =>
    obtain rfl := mem_singleton.mp hc
    rw [rotate, hfree] at howner
    simp only [Function.update_self, Option.some.injEq] at howner
    exact howner ▸ hadj
  | @step g k d cs hadj hd hfresh hrest ih =>
    simp only [rotate, hd] at howner
    rcases mem_cons.mp hc with hfirst | hin
    · rw [hfirst, Function.update_self, Option.some.injEq] at howner
      exact howner ▸ hfirst ▸ hadj
    · have hne : c ≠ d := by
        rintro rfl
        exact hfresh hin
      rw [Function.update_of_ne hne] at howner
      exact ih hin howner

/-- Handing on the vertices of a path from a left vertex that has none makes a matching in which it has one too. -/
theorem IsMatching.rotate (hm : IsMatching adj owner) (hpath : Augments adj owner g cs) (hg : ∀ c, owner c ≠ some g) :
    IsMatching adj (rotate owner g cs) ∧
      ∀ h, (∃ c, Graph.rotate owner g cs c = some h) ↔ h = g ∨ ∃ c, owner c = some h := by
  have hown := hpath.owners
  -- a vertex off the path keeps an owner that has none on it
  have hoff : ∀ {c c' h}, c ∈ cs → c' ∉ cs → Graph.rotate owner g cs c = some h → owner c' = some h → False := by
    intro c c' h hc hc' hrot howner
    rcases (hown h).mp ⟨c, hc, hrot⟩ with rfl | ⟨d, hd, hdh⟩
    · exact hg c' howner
    · rw [hm.inj howner hdh] at hc'
      exact hc' hd
  refine ⟨⟨fun {c h} howner => ?_, fun {c c' h} howner howner' => ?_⟩, fun h => ?_⟩
  · by_cases hc : c ∈ cs
    · exact hpath.adj_rotate hc howner
    · rw [rotate_of_not_mem hc] at howner
      exact hm.adj howner
  · by_cases hc : c ∈ cs <;> by_cases hc' : c' ∈ cs
    · exact hpath.injOn hm (fun d _ => hg d) hc hc' howner howner'
    · rw [rotate_of_not_mem hc'] at howner'
      exact absurd howner' fun h => hoff hc hc' howner h
    · rw [rotate_of_not_mem hc] at howner
      exact absurd howner fun h => hoff hc' hc howner' h
    · rw [rotate_of_not_mem hc] at howner
      rw [rotate_of_not_mem hc'] at howner'
      exact hm.inj howner howner'
  · constructor
    · rintro ⟨c, hc⟩
      by_cases hmem : c ∈ cs
      · rcases (hown h).mp ⟨c, hmem, hc⟩ with rfl | ⟨d, -, hd⟩
        · exact .inl rfl
        · exact .inr ⟨d, hd⟩
      · rw [rotate_of_not_mem hmem] at hc
        exact .inr ⟨c, hc⟩
    · rintro (rfl | ⟨c, hc⟩)
      · obtain ⟨c, -, hc⟩ := (hown h).mpr (.inl rfl)
        exact ⟨c, hc⟩
      · by_cases hmem : c ∈ cs
        · obtain ⟨d, -, hd⟩ := (hown h).mpr (.inr ⟨c, hmem, hc⟩)
          exact ⟨d, hd⟩
        · exact ⟨c, by rw [rotate_of_not_mem hmem, hc]⟩

end

/-! ## Stuck sets -/

/-- The neighbours of the left vertices of `X` are in `V`, and those of `V` belong to left vertices of `X`. -/
structure Stuck (adj : α → β → Prop) (owner : β → Option α) (X : Set α) (V : Set β) : Prop where
  neighbours : ∀ {g c}, g ∈ X → adj g c → c ∈ V
  owners : ∀ {c}, c ∈ V → ∃ h ∈ X, owner c = some h

variable {X X' : Set α} {V V' : Set β}

theorem Stuck.not_augments (hstuck : Stuck adj owner X V) (hpath : Augments adj owner g cs) : g ∉ X := by
  induction hpath with
  | free hadj hfree =>
    intro hg
    obtain ⟨h, -, howner⟩ := hstuck.owners (hstuck.neighbours hg hadj)
    rw [hfree] at howner
    cases howner
  | step hadj howner _ _ ih =>
    intro hg
    obtain ⟨k, hk, hck⟩ := hstuck.owners (hstuck.neighbours hg hadj)
    rw [howner, Option.some.injEq] at hck
    exact ih (hck ▸ hk)

/-- An augmenting path keeps off a stuck set. -/
theorem Stuck.not_mem (hstuck : Stuck adj owner X V) (hpath : Augments adj owner g cs) {c : β} (hc : c ∈ cs) : c ∉ V := by
  intro hV
  obtain ⟨h, hX, howner⟩ := hstuck.owners hV
  induction hpath with
  | free hadj hfree =>
    rw [mem_singleton.mp hc, hfree] at howner
    cases howner
  | step hadj hd _ hrest ih =>
    rcases mem_cons.mp hc with rfl | hc
    · rw [hd, Option.some.injEq] at howner
      exact hstuck.not_augments hrest (howner ▸ hX)
    · exact ih hc

theorem Stuck.rotate [DecidableEq β] (hstuck : Stuck adj owner X V) (hpath : Augments adj owner g cs) :
    Stuck adj (rotate owner g cs) X V := by
  refine ⟨hstuck.neighbours, fun hc => ?_⟩
  rw [rotate_of_not_mem fun hmem => hstuck.not_mem hpath hmem hc]
  exact hstuck.owners hc

theorem Stuck.union (hstuck : Stuck adj owner X V) (hstuck' : Stuck adj owner X' V') :
    Stuck adj owner (X ∪ X') (V ∪ V') := by
  refine ⟨fun hg hadj => ?_, fun hc => ?_⟩
  · exact hg.imp (hstuck.neighbours · hadj) (hstuck'.neighbours · hadj)
  · rcases hc with hc | hc
    · obtain ⟨h, hh, howner⟩ := hstuck.owners hc
      exact ⟨h, .inl hh, howner⟩
    · obtain ⟨h, hh, howner⟩ := hstuck'.owners hc
      exact ⟨h, .inr hh, howner⟩

theorem stuck_empty : Stuck adj owner ∅ ∅ := ⟨fun hg => absurd hg (Set.notMem_empty _), fun hc => absurd hc (Set.notMem_empty _)⟩

/-! ## Maximum matchings -/

/-- A choice of neighbours, no two of them the same, for some of the left vertices. -/
structure IsAssignment (adj : α → β → Prop) (f : α → Option β) : Prop where
  adj : ∀ {g c}, f g = some c → adj g c
  inj : ∀ {g g' c}, f g = some c → f g' = some c → g = g'

/-- No choice covers more left vertices than a matching in which whoever has nothing is stuck. -/
theorem Stuck.covers_most [DecidableEq α] (hstuck : Stuck adj owner X V) {groups : List α} (hnodup : groups.Nodup)
    (hm : IsMatching adj owner) (howners : ∀ {c g}, owner c = some g → g ∈ groups)
    (hfree : ∀ g ∈ groups, (∃ c, owner c = some g) ∨ g ∈ X) {p : α → Bool}
    (hp : ∀ g, p g = true ↔ ∃ c, owner c = some g) {f : α → Option β} (hf : IsAssignment adj f) :
    (groups.filter fun g => (f g).isSome).length ≤ (groups.filter p).length := by
  classical
  -- whoever is in the stuck set takes the place of the owner of his choice
  let place (g : α) : α := if g ∈ X then ((f g).bind owner).getD g else g
  have hplace : ∀ {g c}, g ∈ X → f g = some c → owner c = some (place g) ∧ place g ∈ X := by
    intro g c hg hc
    obtain ⟨h, hX, howner⟩ := hstuck.owners (hstuck.neighbours hg (hf.adj hc))
    have heq : place g = h := by simp only [place, if_pos hg, hc, Option.bind_some, howner, Option.getD_some]
    rw [heq]
    exact ⟨howner, hX⟩
  have hcovered : ∀ g ∈ groups.filter fun g => (f g).isSome, place g ∈ groups.filter p := by
    intro g hg
    obtain ⟨hgroups, hsome⟩ := mem_filter.mp hg
    obtain ⟨c, hc⟩ := Option.isSome_iff_exists.mp hsome
    rw [mem_filter, hp]
    by_cases hX : g ∈ X
    · have howner := (hplace hX hc).1
      exact ⟨howners howner, c, howner⟩
    · have heq : place g = g := if_neg hX
      rw [heq]
      exact ⟨hgroups, (hfree g hgroups).resolve_right hX⟩
  have hinj : ∀ g ∈ groups.filter fun g => (f g).isSome, ∀ g' ∈ groups.filter fun g => (f g).isSome,
      place g = place g' → g = g' := by
    intro g hg g' hg' heq
    obtain ⟨c, hc⟩ := Option.isSome_iff_exists.mp (mem_filter.mp hg).2
    obtain ⟨c', hc'⟩ := Option.isSome_iff_exists.mp (mem_filter.mp hg').2
    by_cases hX : g ∈ X <;> by_cases hX' : g' ∈ X
    · have howner := (hplace hX hc).1
      rw [heq] at howner
      obtain rfl := hm.inj howner (hplace hX' hc').1
      exact hf.inj hc hc'
    · have hout : place g' = g' := if_neg hX'
      rw [hout] at heq
      exact absurd (heq ▸ (hplace hX hc).2) hX'
    · have hout : place g = g := if_neg hX
      rw [hout] at heq
      exact absurd (heq ▸ (hplace hX' hc').2) hX
    · have hout : place g = g := if_neg hX
      have hout' : place g' = g' := if_neg hX'
      rwa [hout, hout'] at heq
  have hmap : ((groups.filter fun g => (f g).isSome).map place).Nodup :=
    (hnodup.filter _).map_on hinj
  have hsub : (groups.filter fun g => (f g).isSome).map place ⊆ groups.filter p := by
    intro g hg
    obtain ⟨g', hg', rfl⟩ := mem_map.mp hg
    exact hcovered g' hg'
  have hle := (hmap.subperm hsub).length_le
  rwa [length_map] at hle

end Graph
