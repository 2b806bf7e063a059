import Mathlib.Init

/-!
# Runs of a state machine

A machine is a total step function on its states; an input that the state does not allow leaves it as
it is. `run` takes a list of inputs, so what holds of every list holds of every interleaving.

`Along` says that each input of a run satisfies a condition in the state in which it comes. The
induction over a run is done once, in `invariant` (what every step keeps) and `Along.invariant` (what
every step that meets the condition keeps).
-/

namespace Js.Machine

variable {σ α : Type} (step : σ → α → σ)

def run (s : σ) (as : List α) : σ := as.foldl step s

@[simp] theorem run_nil (s : σ) : run step s [] = s := rfl

@[simp] theorem run_cons (s : σ) (a : α) (as : List α) :
    run step s (a :: as) = run step (step s a) as := rfl

theorem run_append (s : σ) (as bs : List α) :
    run step s (as ++ bs) = run step (run step s as) bs := List.foldl_append

def Along (P : σ → α → Prop) : σ → List α → Prop
  | _, [] => True
  | s, a :: as => P s a ∧ Along P (step s a) as

instance decidableAlong (P : σ → α → Prop) [∀ s a, Decidable (P s a)] :
    ∀ s as, Decidable (Along step P s as)
  | _, [] => inferInstanceAs (Decidable True)
  | s, a :: as =>
    have := decidableAlong P (step s a) as
    inferInstanceAs (Decidable (P s a ∧ Along step P (step s a) as))

variable {step} {I : σ → Prop} {P Q : σ → α → Prop}

theorem along_of_mem {s : σ} {as : List α} (h : ∀ s, ∀ a ∈ as, P s a) : Along step P s as := by
  induction as generalizing s with
  | nil => trivial
  | cons a as ih =>
    exact ⟨h s a List.mem_cons_self, ih fun s b hb => h s b (List.mem_cons_of_mem _ hb)⟩

/-- A run that meets the condition meets it up to each of its states. -/
theorem Along.of_append {s : σ} {as bs : List α} (h : Along step P s (as ++ bs)) :
    Along step P s as := by
  induction as generalizing s with
  | nil => trivial
  | cons a as ih => exact ⟨h.1, ih h.2⟩

/-- What every step that meets the condition keeps, holds at the end of a run that meets it. -/
theorem Along.invariant (hstep : ∀ s a, I s → P s a → I (step s a)) {s : σ} {as : List α}
    (h : Along step P s as) (hs : I s) : I (run step s as) := by
  induction as generalizing s with
  | nil => exact hs
  | cons a as ih => exact ih h.2 (hstep s a hs h.1)

/-- What every step keeps, holds at the end of every run. -/
theorem invariant (hstep : ∀ s a, I s → I (step s a)) {s : σ} (hs : I s) (as : List α) :
    I (run step s as) := by
  induction as generalizing s with
  | nil => exact hs
  | cons a as ih => exact ih (hstep s a hs)

/-- Two conditions that agree wherever `J` holds, which every step keeps, are met by the same runs. -/
theorem along_congr {J : σ → Prop} (hJ : ∀ s a, J s → J (step s a))
    (h : ∀ s a, J s → (P s a ↔ Q s a)) {s : σ} (hs : J s) (as : List α) :
    Along step P s as ↔ Along step Q s as := by
  induction as generalizing s with
  | nil => exact Iff.rfl
  | cons a as ih => exact and_congr (h s a hs) (ih (hJ s a hs))

/-- Where a step keeps `I` exactly when it meets the condition, a run meets the condition exactly when
`I` holds in every state on its way. `J` is what every step keeps. -/
theorem along_iff {J : σ → Prop} (hJ : ∀ s a, J s → J (step s a))
    (hI : ∀ s a, J s → I s → (I (step s a) ↔ P s a)) {s : σ} (hs : J s) (h : I s) (as : List α) :
    (∀ n, I (run step s (as.take n))) ↔ Along step P s as := by
  induction as generalizing s with
  | nil => simp [Along, h]
  | cons a as ih =>
    constructor
    · intro hall
      have hstep : I (step s a) := hall 1
      exact ⟨(hI s a hs h).mp hstep, (ih (hJ s a hs) hstep).mp fun n => hall (n + 1)⟩
    · rintro ⟨hp, halong⟩ n
      have hstep := (hI s a hs h).mpr hp
      cases n with
      | zero => exact h
      | succ n => exact (ih (hJ s a hs) hstep).mpr halong n

end Js.Machine
