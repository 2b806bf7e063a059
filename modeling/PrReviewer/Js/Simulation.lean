import PrReviewer.Js.Action

/-!
# Two stretches in step

`Sim R s t m m'`: run from `s` and from `t`, the stretches `m` and `m'` both return, and the same
value, or both throw, and in either case the states they leave are related by `R`. What was done
before an exception stays, so a throw does not end the relation. The rules have the names of those of
`Moves` and take the two stretches apart statement by statement:

- `get`: the two sides read their own states;
- `lift`: the two sides compute values related by `V`, or both throw;
- `ite`: the two sides branch alike.
-/

open List

namespace Js

variable {σ τ α β γ κ : Type}

/-- Both computations return, related values, or both throw. -/
def BothOk (V : α → β → Prop) : Except Exn α → Except Exn β → Prop
  | .ok a, .ok b => V a b
  | .error _, .error _ => True
  | _, _ => False

theorem bothOk_refl (x : Except Exn α) : BothOk (fun a b => a = b ∧ x = .ok a) x x := by
  cases x with
  | ok a => exact ⟨rfl, rfl⟩
  | error e => trivial

/-- Both results return the same value, or both throw, in related states. -/
def EndsAlike (R : σ → τ → Prop) : EStateM.Result Exn σ α → EStateM.Result Exn τ α → Prop
  | .ok a s, .ok b t => a = b ∧ R s t
  | .error _ s, .error _ t => R s t
  | _, _ => False

/-- `m` from `s` and `m'` from `t` go alike. -/
def Sim (R : σ → τ → Prop) (s : σ) (t : τ) (m : Action σ α) (m' : Action τ α) : Prop :=
  EndsAlike R (m s) (m' t)

namespace Sim

variable {R : σ → τ → Prop} {s : σ} {t : τ}

variable {m : Action σ α} {m' : Action τ α} {x : Except Exn α} {xs : List κ}

theorem final (h : Sim R s t m m') :
    R (m.final s) (m'.final t) := by
  unfold Sim at h
  unfold Action.final
  cases hm : m s <;> cases hm' : m' t <;> rw [hm, hm'] at h
  · exact h.2
  · exact h.elim
  · exact h.elim
  · exact h

theorem pure {a : α} (h : R s t) : Sim R s t (Pure.pure a) (Pure.pure a) := ⟨rfl, h⟩

theorem throw {e e' : Exn} (h : R s t) :
    Sim R s t (MonadExcept.throw e : Action σ α) (MonadExcept.throw e') := h

theorem bind {f : α → Action σ β} {f' : α → Action τ β}
    (hm : Sim R s t m m') (hf : ∀ a s' t', R s' t' → Sim R s' t' (f a) (f' a)) :
    Sim R s t (m >>= f) (m' >>= f') := by
  unfold Sim at hm
  change EndsAlike R (EStateM.bind m f s) (EStateM.bind m' f' t)
  unfold EStateM.bind
  cases hms : m s <;> cases hmt : m' t <;> rw [hms, hmt] at hm
  · obtain ⟨rfl, hr⟩ := hm
    exact hf _ _ _ hr
  · exact hm.elim
  · exact hm.elim
  · exact hm

theorem get {f : σ → Action σ β} {f' : τ → Action τ β} (h : Sim R s t (f s) (f' t)) :
    Sim R s t (MonadState.get >>= f) (MonadState.get >>= f') := h

theorem lift {V : α → β → Prop} {x' : Except Exn β} {f : α → Action σ γ}
    {f' : β → Action τ γ} (hx : BothOk V x x') (hs : R s t)
    (h : ∀ a b, V a b → Sim R s t (f a) (f' b)) :
    Sim R s t (Action.lift x >>= f) (Action.lift x' >>= f') := by
  cases x <;> cases x'
  · exact hs
  · exact hx.elim
  · exact hx.elim
  · exact h _ _ hx

/-- The two sides compute the same. -/
theorem lift_same {f : α → Action σ γ} {f' : α → Action τ γ} (hs : R s t)
    (h : ∀ a, x = .ok a → Sim R s t (f a) (f' a)) :
    Sim R s t (Action.lift x >>= f) (Action.lift x >>= f') :=
  lift (bothOk_refl x) hs fun a _ hab => hab.1 ▸ h a hab.2

/-- One statement on each side, and the rest. -/
theorem assign {g : σ → σ} {g' : τ → τ} {f : PUnit → Action σ β} {f' : PUnit → Action τ β}
    (h : Sim R (g s) (g' t) (f ⟨⟩) (f' ⟨⟩)) : Sim R s t (modify g >>= f) (modify g' >>= f') := h

/-- One last statement on each side. -/
theorem step {g : σ → σ} {g' : τ → τ} (h : R (g s) (g' t)) :
    Sim R s t (modify g) (modify g') := ⟨rfl, h⟩

theorem ite {c c' : Prop} [Decidable c] [Decidable c'] {n : Action σ α} {n' : Action τ α}
    (hc : c ↔ c') (ht : c → Sim R s t m m') (hf : ¬c → Sim R s t n n') :
    Sim R s t (if c then m else n) (if c' then m' else n') := by
  by_cases h : c
  · rw [if_pos h, if_pos (hc.mp h)]
    exact ht h
  · rw [if_neg h, if_neg fun h' => h (hc.mpr h')]
    exact hf h

/-- A loop, and the same loop over the elements that `p` selects. -/
theorem forM_filter {p : κ → Bool} {body : κ → Action σ PUnit}
    {body' : κ → Action τ PUnit} (h0 : R s t)
    (hskip : ∀ x ∈ xs, p x = false → body x = Pure.pure ⟨⟩)
    (h : ∀ x ∈ xs, p x = true → ∀ s' t', R s' t' → Sim R s' t' (body x) (body' x)) :
    Sim R s t (xs.forM body) ((xs.filter p).forM body') := by
  induction xs generalizing s t with
  | nil => exact pure h0
  | cons x xs ih =>
    have hskip' := fun y hy => hskip y (mem_cons_of_mem _ hy)
    have h' := fun y hy => h y (mem_cons_of_mem _ hy)
    cases hp : p x with
    | true =>
      rw [filter_cons_of_pos hp]
      exact bind (h x mem_cons_self hp s t h0) fun _ _ _ hr => ih hr hskip' h'
    | false =>
      rw [filter_cons_of_neg (by rw [hp]; exact Bool.false_ne_true)]
      change EndsAlike R ((body x >>= fun _ => xs.forM body) s) _
      rw [hskip x mem_cons_self hp]
      exact ih h0 hskip' h'

/-- The same loop on both sides. -/
theorem forM {body : κ → Action σ PUnit} {body' : κ → Action τ PUnit} (h0 : R s t)
    (h : ∀ x ∈ xs, ∀ s' t', R s' t' → Sim R s' t' (body x) (body' x)) :
    Sim R s t (xs.forM body) (xs.forM body') := by
  have hall : xs.filter (fun _ => true) = xs := filter_eq_self.mpr fun _ _ => rfl
  have hloop := forM_filter (p := fun _ => true) h0 (fun _ _ hp => by cases hp) fun x hx _ => h x hx
  rwa [hall] at hloop

end Sim

end Js
