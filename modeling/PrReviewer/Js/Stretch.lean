import PrReviewer.Js.Async

/-!
# Stretches of a run

`p.Runs w s h t r s'`: against the service `w`, from the local variables `s` and after the calls `h`, the
function `p` makes the calls `t` and ends with `r` and `s'`. It is how one speaks of a part of a run: the
inversions (`bind_inv`, `tryCatch_inv`, `call_inv`, `pure_inv`) cut the calls of a function into those of its
parts, in their order.
-/

namespace Js.Pending

variable {C C' : Type} {R : C → Type} {R' : C' → Type} {E α β : Type}

theorem trace_bind (p : Pending C R α) (f : α → Pending C R β) (w : Service C R E)
    (h : List (Entry C R E)) :
    (p.bind f).trace w h = p.trace w h ++ (f (p.result w h)).trace w (h ++ p.trace w h) := by
  induction p generalizing h with
  | done a => simp [bind, trace, result]
  | await c next ih => simp [bind, trace, result, ih]

theorem result_bind (p : Pending C R α) (f : α → Pending C R β) (w : Service C R E)
    (h : List (Entry C R E)) :
    (p.bind f).result w h = (f (p.result w h)).result w (h ++ p.trace w h) := by
  induction p generalizing h with
  | done a => simp [bind, trace, result]
  | await c next ih => simp [bind, trace, result, ih]

/-- A function over a smaller set of calls makes only calls of that set. -/
theorem call_of_mem_via {f : C' → C} {g : ∀ c, R (f c) → R' c} {p : Pending C' R' α}
    {w : Service C R E} {h : List (Entry C R E)} {e : Entry C R E}
    (he : e ∈ (p.via f g).trace w h) : ∃ c, e.call = f c := by
  induction p generalizing h with
  | done a => simp [via, trace] at he
  | await c next ih =>
    simp only [via, trace, List.mem_cons] at he
    rcases he with rfl | he
    · exact ⟨c, rfl⟩
    · exact ih _ he

end Js.Pending

namespace Js.Async

variable {C C' : Type} {R : C → Type} {R' : C' → Type} {E σ α β : Type}
  {w : Service C R E} {s s' : σ} {h t : List (Entry C R E)}

/-- The calls `t` of `p` after the calls `h`, and what it ends with. -/
def Runs (p : Async C R σ α) (w : Service C R E) (s : σ) (h t : List (Entry C R E))
    (r : Except Exn α) (s' : σ) : Prop :=
  (p s).trace w h = t ∧ (p s).result w h = (r, s')

theorem runs_trace (p : Async C R σ α) (w : Service C R E) (s : σ) (h : List (Entry C R E)) :
    ∃ r s', p.Runs w s h ((p s).trace w h) r s' :=
  ⟨_, _, rfl, rfl⟩

namespace Runs

variable {r : Except Exn α} {p : Async C R σ α}

theorem pure_inv {a : α} (hp : (pure a : Async C R σ α).Runs w s h t r s') :
    t = [] ∧ r = .ok a ∧ s' = s := by
  obtain ⟨ht, hr⟩ := hp
  cases hr
  exact ⟨ht.symm, rfl, rfl⟩

theorem call_inv {c : C} {r : Except Exn (R c)}
    (hp : (call c : Async C R σ (R c)).Runs w s h t r s') : ∃ m, t = [⟨c, r, m⟩] := by
  obtain ⟨ht, hr⟩ := hp
  cases hr
  exact ⟨_, ht.symm⟩

theorem bind_inv {f : α → Async C R σ β} {r : Except Exn β}
    (hp : (p >>= f).Runs w s h t r s') :
    (∃ a s₁ t₁ t₂, p.Runs w s h t₁ (.ok a) s₁ ∧ (f a).Runs w s₁ (h ++ t₁) t₂ r s'
        ∧ t = t₁ ++ t₂) ∨
      ∃ e, p.Runs w s h t (.error e) s' ∧ r = .error e := by
  obtain ⟨ht, hr⟩ := hp
  have ht' := (Pending.trace_bind (p s) _ w h).symm.trans ht
  have hr' := (Pending.result_bind (p s) _ w h).symm.trans hr
  cases hres : (p s).result w h with
  | mk x s₁ =>
    rw [hres] at ht' hr'
    cases x with
    | ok a => exact .inl ⟨a, s₁, _, _, ⟨rfl, hres⟩, ⟨rfl, hr'⟩, ht'.symm⟩
    | error e =>
      cases hr'
      refine .inr ⟨e, ⟨?_, hres⟩, rfl⟩
      simpa [Pending.trace] using ht'

theorem tryCatch_inv {handler : Exn → Async C R σ α}
    (hp : (tryCatch p handler).Runs w s h t r s') :
    (∃ a, p.Runs w s h t (.ok a) s' ∧ r = .ok a) ∨
      ∃ e s₁ t₁ t₂, p.Runs w s h t₁ (.error e) s₁ ∧ (handler e).Runs w s₁ (h ++ t₁) t₂ r s'
        ∧ t = t₁ ++ t₂ := by
  obtain ⟨ht, hr⟩ := hp
  have ht' := (Pending.trace_bind (p s) _ w h).symm.trans ht
  have hr' := (Pending.result_bind (p s) _ w h).symm.trans hr
  cases hres : (p s).result w h with
  | mk x s₁ =>
    rw [hres] at ht' hr'
    cases x with
    | ok a =>
      cases hr'
      refine .inl ⟨a, ⟨?_, hres⟩, rfl⟩
      simpa [Pending.trace] using ht'
    | error e => exact .inr ⟨e, s₁, _, _, ⟨rfl, hres⟩, ⟨rfl, hr'⟩, ht'.symm⟩

/-- A handler that makes no call adds none. -/
theorem tryCatch_calls {handler : Exn → Async C R σ α}
    (hp : (tryCatch p handler).Runs w s h t r s')
    (hq : ∀ e s₁ h₁ t₁ r' s₂, (handler e).Runs w s₁ h₁ t₁ r' s₂ → t₁ = []) :
    ∃ r' s₁, p.Runs w s h t r' s₁ := by
  rcases hp.tryCatch_inv with ⟨a, hok, -⟩ | ⟨e, s₁, t₁, t₂, herr, he, rfl⟩
  · exact ⟨_, _, hok⟩
  · rw [hq _ _ _ _ _ _ he, List.append_nil]
    exact ⟨_, _, herr⟩

theorem via_inv {f : C' → C} {g : ∀ c, R (f c) → R' c} {p : Async C' R' σ α}
    (hp : (p.via f g).Runs w s h t r s') : ∀ e ∈ t, ∃ c, e.call = f c := by
  obtain ⟨rfl, -⟩ := hp
  intro e he
  exact Pending.call_of_mem_via he

end Runs

end Js.Async
