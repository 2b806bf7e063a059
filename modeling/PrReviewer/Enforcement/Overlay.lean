/-!
# Overlays

A state `s : σ` has a view in `β` with one value `top` that decides: an overlay is a function on states
that leaves the view or sets it to `top`.

- `ForcesIf p f`: `f` sets the view to `top` exactly when `p` holds, whatever the state is. The composition
  of two such overlays forces when one of them does (`ForcesIf.comp`).
- `Raises f`: `f` may set the view to `top` for reasons of its own, and never sets it to anything else.
-/

namespace Overlay

variable {σ β : Type} {view : σ → β} {top : β} {p q : Prop} {f g : σ → σ}

/-- `f` sets the view to `top` if `p` holds, and leaves it otherwise. -/
structure ForcesIf (view : σ → β) (top : β) (p : Prop) (f : σ → σ) : Prop where
  force : p → ∀ s, view (f s) = top
  leave : ¬p → ∀ s, view (f s) = view s

/-- `f` leaves the view or sets it to `top`. -/
def Raises (view : σ → β) (top : β) (f : σ → σ) : Prop :=
  ∀ s, view (f s) = view s ∨ view (f s) = top

theorem Raises.of_top (h : Raises view top f) {s : σ} (hs : view s = top) : view (f s) = top := by
  rcases h s with hleft | hright
  · rw [hleft, hs]
  · exact hright

theorem ForcesIf.raises (h : ForcesIf view top p f) : Raises view top f := by
  intro s
  by_cases hp : p
  · exact .inr (h.force hp s)
  · exact .inl (h.leave hp s)

theorem ForcesIf.comp (hf : ForcesIf view top p f) (hg : ForcesIf view top q g) :
    ForcesIf view top (p ∨ q) fun s => g (f s) where
  force := by
    intro hpq s
    rcases hpq with hp | hq
    · exact hg.raises.of_top (hf.force hp s)
    · exact hg.force hq _
  leave := by
    intro hpq s
    rw [not_or] at hpq
    rw [hg.leave hpq.2, hf.leave hpq.1]

theorem ForcesIf.congr (h : ForcesIf view top p f) (hpq : p ↔ q) : ForcesIf view top q f :=
  ⟨fun hq => h.force (hpq.mpr hq), fun hq => h.leave fun hp => hq (hpq.mp hp)⟩

end Overlay
