import Mathlib.Init

/-!
# Loops

`loop body fuel s` repeats a body that ends with a result or goes on with a state. `loop_spec` turns a proof about the
loop into one about a single repetition: an invariant, a measure that each repetition makes smaller, and what holds of
the result.
-/

namespace Js

variable {σ ε : Type}

/-- `for (;;) body`, in at most `fuel` repetitions. -/
def loop (body : σ → ε ⊕ σ) : Nat → σ → Option ε
  | 0, _ => none
  | fuel + 1, s =>
    match body s with
    | .inl e => some e
    | .inr s' => loop body fuel s'

theorem loop_spec {body : σ → ε ⊕ σ} {inv : σ → Prop} {m : σ → Nat} {post : ε → Prop}
    (hend : ∀ {s e}, inv s → body s = .inl e → post e)
    (hagain : ∀ {s s'}, inv s → body s = .inr s' → inv s' ∧ m s' < m s) {fuel : Nat} {s : σ} (hs : inv s)
    (hfuel : m s < fuel) : ∃ e, loop body fuel s = some e ∧ post e := by
  induction fuel generalizing s with
  | zero => exact absurd hfuel (Nat.not_lt_zero _)
  | succ fuel ih =>
    rw [loop]
    cases hbody : body s with
    | inl e => exact ⟨e, rfl, hend hs hbody⟩
    | inr s' =>
      obtain ⟨hs', hless⟩ := hagain hs hbody
      exact ih hs' (Nat.lt_of_lt_of_le hless (Nat.le_of_lt_succ hfuel))

/-- A loop that has ended ends the same way with more repetitions allowed. -/
theorem loop_mono {body : σ → ε ⊕ σ} {fuel fuel' : Nat} {s : σ} {e : ε} (h : loop body fuel s = some e)
    (hle : fuel ≤ fuel') : loop body fuel' s = some e := by
  induction fuel generalizing s fuel' with
  | zero => cases h
  | succ fuel ih =>
    obtain ⟨n, rfl⟩ := Nat.exists_eq_succ_of_ne_zero (Nat.ne_zero_of_lt (Nat.lt_of_lt_of_le fuel.lt_succ_self hle))
    rw [loop] at h ⊢
    cases hbody : body s with
    | inl e' =>
      rw [hbody] at h
      exact h
    | inr s' =>
      rw [hbody] at h
      exact ih h (Nat.le_of_succ_le_succ hle)

end Js
