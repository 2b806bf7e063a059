import Mathlib.Init

/-!
# Computations that may throw

Inversion rules for `Except`: a composed computation that returns, returned in each of its parts
(`of_bind_ok`, `of_map_ok`). A loop that returns keeps what every pass keeps (`foldlM_invariant`,
`foldlM_mem_invariant`).

`Agree kind R x y`: both return, with values that `R` relates, or both throw errors of the same kind. It goes
through composition (`Agree.bind`) and through loops (`Agree.foldlM`, under a condition `AlongM` on each
pass).
-/

open List

namespace Js.Except

variable {ε α β σ : Type}

variable {x : Except ε α} {b : β} {as : List α}

theorem of_bind_ok {f : α → Except ε β} (h : x >>= f = .ok b) :
    ∃ a, x = .ok a ∧ f a = .ok b := by
  cases x with
  | error e => cases h
  | ok a => exact ⟨a, rfl, h⟩

theorem of_map_ok {f : α → β} (h : x.map f = .ok b) :
    ∃ a, x = .ok a ∧ b = f a := by
  cases x with
  | error e => cases h
  | ok a => cases h; exact ⟨a, rfl, rfl⟩

theorem of_toOption {a : α} (h : x.toOption = some a) : x = .ok a := by
  cases x with
  | error e => cases h
  | ok b => cases h; rfl

/-- What each of the elements keeps, a loop that ends keeps. -/
theorem foldlM_mem_invariant {f : σ → α → Except ε σ} {I : σ → Prop} {s s' : σ}
    (hf : ∀ s, ∀ a ∈ as, ∀ s', I s → f s a = .ok s' → I s') (hs : I s)
    (h : as.foldlM f s = .ok s') : I s' := by
  induction as generalizing s with
  | nil => cases h; exact hs
  | cons a as ih =>
    rw [foldlM_cons] at h
    obtain ⟨x, hx, h⟩ := of_bind_ok h
    exact ih (fun s b hb => hf s b (mem_cons_of_mem _ hb)) (hf s a mem_cons_self x hs hx) h

/-- What every element keeps, a loop that ends keeps. -/
theorem foldlM_invariant {f : σ → α → Except ε σ} {I : σ → Prop}
    (hf : ∀ s a s', I s → f s a = .ok s' → I s') {s s' : σ} {as : List α} (hs : I s)
    (h : as.foldlM f s = .ok s') : I s' :=
  foldlM_mem_invariant (fun s a _ s' => hf s a s') hs h

theorem mapM_ok {f : α → Except ε β} {g : α → β} (h : ∀ a ∈ as, f a = .ok (g a)) :
    as.mapM f = .ok (as.map g) := by
  induction as with
  | nil => rfl
  | cons a as ih =>
    rw [mapM_cons, h a mem_cons_self, ih fun b hb => h b (mem_cons_of_mem _ hb)]
    rfl

/-- What a loop that ends collects: the values of the elements. -/
theorem mapM_spec {f : α → Except ε β} {bs : List β} (h : as.mapM f = .ok bs) :
    (∀ a ∈ as, ∃ b, f a = .ok b) ∧ ∀ b, b ∈ bs ↔ ∃ a ∈ as, f a = .ok b := by
  induction as generalizing bs with
  | nil => cases h; simp
  | cons a as ih =>
    rw [mapM_cons] at h
    obtain ⟨b, hb, h⟩ := of_bind_ok h
    obtain ⟨bs', hbs, h⟩ := of_bind_ok h
    cases h
    obtain ⟨hall, hmem⟩ := ih hbs
    refine ⟨fun a' ha' => ?_, fun b' => ?_⟩
    · rcases mem_cons.mp ha' with rfl | ha'
      · exact ⟨b, hb⟩
      · exact hall a' ha'
    · simp [hmem, hb, eq_comm]

/-- A loop whose elements all have values ends. -/
theorem exists_mapM_ok {f : α → Except ε β} (h : ∀ a ∈ as, ∃ b, f a = .ok b) :
    ∃ bs, as.mapM f = .ok bs := by
  induction as with
  | nil => exact ⟨[], rfl⟩
  | cons a as ih =>
    obtain ⟨b, hb⟩ := h a mem_cons_self
    obtain ⟨bs, hbs⟩ := ih fun a' ha' => h a' (mem_cons_of_mem _ ha')
    exact ⟨b :: bs, by rw [mapM_cons, hb, hbs]; rfl⟩

/-! ## Agreement -/

section Agree

variable {κ τ γ δ : Type} {kind : ε → κ}

/-- Both return related values, or both throw errors of one kind. -/
def Agree (kind : ε → κ) (R : α → β → Prop) : Except ε α → Except ε β → Prop
  | .ok a, .ok b => R a b
  | .error e, .error e' => kind e = kind e'
  | _, _ => False

variable {x : Except ε α} {y : Except ε β} {s : σ}

/-- The same first part, followed by parts that agree. -/
theorem Agree.bind_same {S : γ → δ → Prop} {f : α → Except ε γ} {g : α → Except ε δ}
    (hf : ∀ a, x = .ok a → Agree kind S (f a) (g a)) : Agree kind S (x >>= f) (x >>= g) := by
  cases x with
  | error e => rfl
  | ok a => exact hf a rfl

theorem Agree.map {R : α → β → Prop} {S : γ → δ → Prop} {f : α → γ}
    {g : β → δ} (h : Agree kind R x y) (hf : ∀ a b, R a b → S (f a) (g b)) :
    Agree kind S (x.map f) (y.map g) := by
  cases x <;> cases y <;> simp only [Agree] at h
  · exact h
  · exact hf _ _ h

/-- Agreement says more of a value that the first computation returns. -/
theorem Agree.strengthen {R S : α → β → Prop} (h : Agree kind R x y)
    (hS : ∀ a b, x = .ok a → R a b → S a b) : Agree kind S x y := by
  cases x <;> cases y <;> simp only [Agree] at h
  · exact h
  · exact hS _ _ rfl h

/-- The condition on each pass of a loop, in the state in which it comes. -/
def AlongM (f : σ → α → Except ε σ) (P : σ → α → Prop) : σ → List α → Prop
  | _, [] => True
  | s, a :: as => P s a ∧ match f s a with
    | .ok s' => AlongM f P s' as
    | .error _ => True

@[simp] theorem alongM_singleton {f : σ → α → Except ε σ} {P : σ → α → Prop} {a : α} :
    AlongM f P s [a] ↔ P s a := by
  rw [AlongM]
  cases f s a <;> simp [AlongM]

theorem AlongM.and_mem {f : σ → α → Except ε σ} {P : σ → α → Prop} {Q : α → Prop} {as : List α}
    (h : AlongM f P s as) (hQ : ∀ a ∈ as, Q a) : AlongM f (fun s a => Q a ∧ P s a) s as := by
  induction as generalizing s with
  | nil => trivial
  | cons a as ih =>
    obtain ⟨hP, hrest⟩ := h
    refine ⟨⟨hQ a mem_cons_self, hP⟩, ?_⟩
    split
    · next s' hs' =>
      rw [hs'] at hrest
      exact ih hrest fun b hb => hQ b (mem_cons_of_mem _ hb)
    · trivial

theorem Agree.foldlM {f : σ → α → Except ε σ} {g : τ → α → Except ε τ} {R : σ → τ → Prop}
    {P : σ → α → Prop} (hstep : ∀ s t a, R s t → P s a → Agree kind R (f s a) (g t a)) {s : σ} {t : τ}
    {as : List α} (hR : R s t) (h : AlongM f P s as) : Agree kind R (as.foldlM f s) (as.foldlM g t) := by
  induction as generalizing s t with
  | nil => exact hR
  | cons a as ih =>
    rw [foldlM_cons, foldlM_cons]
    obtain ⟨hP, hrest⟩ := h
    have hagree := hstep s t a hR hP
    cases hf : f s a with
    | error e =>
      cases hg : g t a with
      | error e' =>
        rw [hf, hg] at hagree
        exact hagree
      | ok t' => simp [hf, hg, Agree] at hagree
    | ok s' =>
      cases hg : g t a with
      | error e' => simp [hf, hg, Agree] at hagree
      | ok t' =>
        rw [hf] at hrest
        exact ih (by simpa [hf, hg, Agree] using hagree) hrest

end Agree

end Js.Except
