import Mathlib.Init

/-!
# Labelled runs

`Trail R s es s'`: from `s` the events `es` lead, each by a step of `R`, to `s'`. Where a run of calls only
now and then changes the part of a state that matters, its trail is the list of those changes.

`Trail.append` splits a trail at any place; `Trail.invariant` is the induction over one, for a property that
the steps under the labels at hand keep.
-/

namespace Js

variable {σ ε : Type} {R : σ → ε → σ → Prop}

/-- The events lead from the first state to the last. -/
def Trail (R : σ → ε → σ → Prop) : σ → List ε → σ → Prop
  | s, [], s' => s' = s
  | s, e :: es, s' => ∃ m, R s e m ∧ Trail R m es s'

namespace Trail

theorem refl (s : σ) : Trail R s [] s := rfl

theorem single {s s' : σ} {e : ε} (h : R s e s') : Trail R s [e] s' := ⟨s', h, rfl⟩

theorem append {s s' : σ} {as bs : List ε} :
    Trail R s (as ++ bs) s' ↔ ∃ m, Trail R s as m ∧ Trail R m bs s' := by
  induction as generalizing s with
  | nil => simp [Trail]
  | cons a as ih =>
    simp only [List.cons_append, Trail, ih]
    constructor
    · rintro ⟨x, hx, m, hm, h⟩
      exact ⟨m, ⟨x, hx, hm⟩, h⟩
    · rintro ⟨m, ⟨x, hx, hm⟩, h⟩
      exact ⟨x, hx, m, hm, h⟩

/-- What every step under one of the events keeps, the trail keeps. -/
theorem invariant {I : σ → Prop} {s s' : σ} {es : List ε} (h : Trail R s es s') (hs : I s)
    (hstep : ∀ s, ∀ e ∈ es, ∀ s', I s → R s e s' → I s') : I s' := by
  induction es generalizing s with
  | nil =>
    cases h
    exact hs
  | cons e es ih =>
    obtain ⟨m, hm, h⟩ := h
    exact ih h (hstep s e List.mem_cons_self m hs hm) fun s e he =>
      hstep s e (List.mem_cons_of_mem _ he)

end Trail

end Js
