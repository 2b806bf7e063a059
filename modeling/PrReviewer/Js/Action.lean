import Mathlib.Logic.Relation

/-!
# Synchronous JavaScript code on a state

`Action σ α` is one synchronous stretch of code on an object of state `σ`: it returns a value or
throws, and what it did to the state before it threw stays (`final`).

`Moves R s m Q` says that `m`, run from `s`, goes to its final state by steps of `R`, whether it
returns or throws, and if it returns, `Q` holds of the value and the state. So a fact that every step
of `R` keeps holds after `m` (`Moves.invariant`). The rules execute the code symbolically, in its
order: `get`, `lift`, `assign` and `skip` for one statement and the rest, `bind` for a call, `ite` for
a branch, `forM` for a loop.

`Returns s m Q` says more: `m` does not throw, and `Q` holds of what it returns. `Keeps I m` says less:
`m` keeps `I`, from any state. Both have rules of the same names.
-/

open Relation

namespace Js

/-- A thrown `Error`: its class and its message. -/
structure Exn where
  name : String
  message : String
  deriving DecidableEq, Repr

def rangeError (message : String) : Exn := ⟨"RangeError", message⟩

def error (message : String) : Exn := ⟨"Error", message⟩

abbrev Action (σ α : Type) := EStateM Exn σ α

namespace Action

variable {σ α β : Type}

/-- The state after `m`, returned or thrown. -/
def final (m : Action σ α) (s : σ) : σ :=
  match m s with
  | .ok _ s' => s'
  | .error _ s' => s'

/-- The returned value, if `m` did not throw. -/
def value? (m : Action σ α) (s : σ) : Option α :=
  match m s with
  | .ok a _ => some a
  | .error _ _ => none

/-- A pure computation that may throw. -/
def lift (x : Except Exn α) : Action σ α :=
  match x with
  | .ok a => pure a
  | .error e => throw e

theorem get_bind (f : σ → Action σ α) (s : σ) : (get >>= f : Action σ α) s = f s s := rfl

theorem lift_ok_bind (a : α) (f : α → Action σ β) : (lift (.ok a) >>= f) = f a := rfl

variable {m : Action σ α} {s' : σ} {a : α}

theorem tryCatch_congr {m' : Action σ α} {f : Exn → Action σ α} {s : σ} (h : m s = m' s') :
    (tryCatch m f : Action σ α) s = (tryCatch m' f : Action σ α) s' := by
  change EStateM.tryCatch m f s = EStateM.tryCatch m' f s'
  unfold EStateM.tryCatch
  rw [h]

/-- Code that returns is not caught. -/
theorem tryCatch_ok {f : Exn → Action σ α} {s : σ} (h : m s = .ok a s') :
    (tryCatch m f : Action σ α) s = .ok a s' := by
  change EStateM.tryCatch m f s = _
  unfold EStateM.tryCatch
  rw [h]

theorem final_bind {f : α → Action σ β} {s : σ} (h : m s = .ok a s') :
    (m >>= f).final s = (f a).final s' := by
  change (match EStateM.bind m f s with | .ok _ t => t | .error _ t => t) = _
  rw [EStateM.bind, h]
  rfl

/-- Dropping the returned value changes nothing. -/
theorem final_discard {s : σ} :
    (m >>= fun _ => (pure PUnit.unit : Action σ PUnit)).final s = m.final s := by
  have hb : (m >>= fun _ => (pure PUnit.unit : Action σ PUnit)) s =
      EStateM.bind m (fun _ => EStateM.pure PUnit.unit) s := rfl
  unfold final
  rw [hb, EStateM.bind]
  cases m s <;> rfl

end Action

/-- What every step keeps is kept by a path. -/
theorem invariant_of_path {σ : Type} {R : σ → σ → Prop} {I : σ → Prop} {s t : σ}
    (h : ReflTransGen R s t) (hI : ∀ a b, I a → R a b → I b) (hs : I s) : I t := by
  induction h with
  | refl => exact hs
  | tail _ hst ih => exact hI _ _ ih hst

/-- A stretch that began in `s` ended by steps of `R`, and what it returned satisfies `Q`. -/
def Ends {σ α : Type} (R : σ → σ → Prop) (s : σ) (Q : α → σ → Prop) :
    EStateM.Result Exn σ α → Prop
  | .ok a s' => ReflTransGen R s s' ∧ Q a s'
  | .error _ s' => ReflTransGen R s s'

/-- From `s`, `m` goes by steps of `R`, and what it returns satisfies `Q`. -/
def Moves {σ α : Type} (R : σ → σ → Prop) (s : σ) (m : Action σ α) (Q : α → σ → Prop) : Prop :=
  Ends R s Q (m s)

namespace Moves

variable {σ α β κ : Type} {R : σ → σ → Prop} {s : σ} {Q Q' : α → σ → Prop} {S : β → σ → Prop}

variable {m : Action σ α}

theorem path (h : Moves R s m Q) : ReflTransGen R s (m.final s) := by
  unfold Moves at h
  unfold Action.final
  cases hm : m s with
  | ok a s' => rw [hm] at h; exact h.1
  | error e s' => rw [hm] at h; exact h

/-- What `m` returns, if it does. -/
theorem value (h : Moves R s m Q) {a : α} (ha : m.value? s = some a) :
    Q a (m.final s) := by
  unfold Moves at h
  unfold Action.value? at ha
  unfold Action.final
  cases hm : m s with
  | ok b s' =>
    rw [hm] at h ha
    obtain rfl : b = a := by simpa using ha
    exact h.2
  | error e s' => rw [hm] at ha; cases ha

theorem mono (h : Moves R s m Q) (hQ : ∀ a s', Q a s' → Q' a s') :
    Moves R s m Q' := by
  unfold Moves at *
  cases hm : m s with
  | ok a s' => rw [hm] at h; exact ⟨h.1, hQ _ _ h.2⟩
  | error e s' => rw [hm] at h; exact h

/-- What every step keeps holds of the returned state too. -/
theorem inv (h : Moves R s m Q) {I : σ → Prop}
    (hI : ∀ t t', I t → R t t' → I t') (hs : I s) : Moves R s m (fun a s' => Q a s' ∧ I s') := by
  unfold Moves at *
  cases hm : m s with
  | error e s' => rw [hm] at h; exact h
  | ok a s' =>
    rw [hm] at h
    exact ⟨h.1, h.2, invariant_of_path h.1 hI hs⟩

theorem pure {a : α} (h : Q a s) : Moves R s (Pure.pure a) Q := ⟨.refl, h⟩

theorem throw {e : Exn} : Moves R s (MonadExcept.throw e : Action σ α) Q := ReflTransGen.refl

/-- The steps before, and a stretch from where they lead. -/
theorem after {s' : σ} (hs : ReflTransGen R s s') {r : EStateM.Result Exn σ α}
    (hr : m s' = r) (h : Moves R s' m Q) : Ends R s Q r := by
  subst hr
  unfold Moves at h
  cases hm : m s' with
  | ok a t => rw [hm] at h; exact ⟨hs.trans h.1, h.2⟩
  | error e t => rw [hm] at h; exact hs.trans h

theorem bind {f : α → Action σ β} (hm : Moves R s m Q)
    (hf : ∀ a s', Q a s' → Moves R s' (f a) S) : Moves R s (m >>= f) S := by
  change Ends R s S (EStateM.bind m f s)
  unfold Moves at hm
  unfold EStateM.bind
  cases hms : m s with
  | error e s' => rw [hms] at hm; exact hm
  | ok a s' =>
    rw [hms] at hm
    exact after hm.1 rfl (hf a s' hm.2)

theorem get {f : σ → Action σ β} (h : Moves R s (f s) S) : Moves R s (MonadState.get >>= f) S := h

theorem lift {x : Except Exn α} {f : α → Action σ β} (h : ∀ a, x = .ok a → Moves R s (f a) S) :
    Moves R s (Action.lift x >>= f) S := by
  cases x with
  | ok a => exact h a rfl
  | error e => exact throw

/-- One step, and the rest. -/
theorem assign {g : σ → σ} {f : PUnit → Action σ β} (hR : R s (g s))
    (h : Moves R (g s) (f ⟨⟩) S) : Moves R s (modify g >>= f) S :=
  after (.single hR) rfl h

/-- One last step. -/
theorem step {g : σ → σ} {Q : PUnit → σ → Prop} (hR : R s (g s)) (hQ : Q ⟨⟩ (g s)) :
    Moves R s (modify g) Q := ⟨.single hR, hQ⟩

/-- A last statement that changes nothing. -/
theorem keep {g : σ → σ} {Q : PUnit → σ → Prop} (hg : g s = s) (hQ : Q ⟨⟩ s) :
    Moves R s (modify g) Q := by
  change ReflTransGen R s (g s) ∧ Q ⟨⟩ (g s)
  rw [hg]
  exact ⟨.refl, hQ⟩

theorem ite {c : Prop} [Decidable c] {n : Action σ α} (ht : c → Moves R s m Q)
    (hf : ¬c → Moves R s n Q) : Moves R s (if c then m else n) Q := by
  split
  · exact ht ‹_›
  · exact hf ‹_›

/-- A loop, with an invariant on the elements that are left and the state. -/
theorem forM {xs : List κ} {body : κ → Action σ PUnit} {I : List κ → σ → Prop} (h0 : I xs s)
    (h : ∀ x rest s, I (x :: rest) s → Moves R s (body x) (fun _ => I rest)) :
    Moves R s (xs.forM body) (fun _ => I []) := by
  induction xs generalizing s with
  | nil => exact pure h0
  | cons x xs ih => exact bind (h x xs s h0) fun _ _ h' => ih h'

end Moves

/-- From `s`, `m` returns, and what it returns satisfies `Q`. -/
def Returns {σ α : Type} (s : σ) (m : Action σ α) (Q : α → σ → Prop) : Prop :=
  ∃ a s', m s = .ok a s' ∧ Q a s'

namespace Returns

variable {σ α β κ : Type} {s : σ} {Q : α → σ → Prop} {S : β → σ → Prop}

variable {a : α} {m : Action σ α}

theorem pure (h : Q a s) : Returns s (Pure.pure a) Q := ⟨a, s, rfl, h⟩

theorem bind {f : α → Action σ β} (hm : Returns s m Q)
    (hf : ∀ a s', Q a s' → Returns s' (f a) S) : Returns s (m >>= f) S := by
  obtain ⟨a, s', hms, ha⟩ := hm
  obtain ⟨b, t, hft, hb⟩ := hf a s' ha
  refine ⟨b, t, ?_, hb⟩
  change EStateM.bind m f s = _
  rw [EStateM.bind, hms]
  exact hft

theorem get {f : σ → Action σ β} (h : Returns s (f s) S) : Returns s (MonadState.get >>= f) S := h

theorem lift {x : Except Exn α} (hx : x = .ok a) {f : α → Action σ β}
    (h : Returns s (f a) S) : Returns s (Action.lift x >>= f) S := by
  subst hx
  exact h

/-- One last step. -/
theorem step {g : σ → σ} {Q : PUnit → σ → Prop} (hQ : Q ⟨⟩ (g s)) : Returns s (modify g) Q :=
  ⟨⟨⟩, g s, rfl, hQ⟩

theorem ite {c : Prop} [Decidable c] {n : Action σ α} (ht : c → Returns s m Q)
    (hf : ¬c → Returns s n Q) : Returns s (if c then m else n) Q := by
  split
  · exact ht ‹_›
  · exact hf ‹_›

/-- A loop, with an invariant on the elements that are left and the state. -/
theorem forM {xs : List κ} {body : κ → Action σ PUnit} {I : List κ → σ → Prop} (h0 : I xs s)
    (h : ∀ x rest s, I (x :: rest) s → Returns s (body x) (fun _ => I rest)) :
    Returns s (xs.forM body) (fun _ => I []) := by
  induction xs generalizing s with
  | nil => exact pure h0
  | cons x xs ih => exact bind (h x xs s h0) fun _ _ h' => ih h'

end Returns

/-- `m` keeps `I`, whether it returns or throws. -/
def Keeps {σ α : Type} (I : σ → Prop) (m : Action σ α) : Prop := ∀ s, I s → I (m.final s)

namespace Keeps

variable {σ α β κ : Type} {I : σ → Prop}

variable {m : Action σ α}

theorem of_moves (h : ∀ s, I s → ∃ Q, Moves (fun _ t => I t) s m Q) :
    Keeps I m := fun s hs => by
  obtain ⟨Q, hm⟩ := h s hs
  exact invariant_of_path hm.path (fun _ _ _ ht => ht) hs

/-- A part of a stretch that keeps `I` by keeping `J`. -/
theorem moves {J : σ → Prop} (h : Keeps J m) {s : σ} (hs : J s)
    (hJ : ∀ t, J t → I t) : Moves (fun _ t => I t) s m (fun _ => J) := by
  have hms := h s hs
  unfold Moves
  cases hm : m s with
  | ok a t =>
    rw [Action.final, hm] at hms
    exact ⟨.single (hJ t hms), hms⟩
  | error e t =>
    rw [Action.final, hm] at hms
    exact .single (hJ t hms)

theorem pure {a : α} : Keeps I (Pure.pure a : Action σ α) := fun _ h => h

theorem throw {e : Exn} : Keeps I (MonadExcept.throw e : Action σ α) := fun _ h => h

theorem bind {f : α → Action σ β} (hm : Keeps I m) (hf : ∀ a, Keeps I (f a)) :
    Keeps I (m >>= f) := fun s hs => by
  have hms := hm s hs
  cases h : m s with
  | ok a t =>
    rw [Action.final_bind h]
    rw [Action.final, h] at hms
    exact hf a t hms
  | error e t =>
    have hb : (m >>= f) s = .error e t := by
      change EStateM.bind m f s = _
      rw [EStateM.bind, h]
    rw [Action.final, h] at hms
    rw [Action.final, hb]
    exact hms

theorem get {f : σ → Action σ β} (h : ∀ s, Keeps I (f s)) : Keeps I (MonadState.get >>= f) :=
  fun s => h s s

theorem lift {x : Except Exn α} {f : α → Action σ β} (h : ∀ a, Keeps I (f a)) :
    Keeps I (Action.lift x >>= f) := by
  cases x with
  | ok a => exact h a
  | error e => exact throw

theorem modify {g : σ → σ} (h : ∀ s, I s → I (g s)) : Keeps I (modify g) := h

theorem ite {c : Prop} [Decidable c] {n : Action σ α} (ht : Keeps I m) (hf : Keeps I n) :
    Keeps I (if c then m else n) := by
  split
  · exact ht
  · exact hf

theorem forM {xs : List κ} {body : κ → Action σ PUnit} (h : ∀ x, Keeps I (body x)) :
    Keeps I (xs.forM body) := by
  induction xs with
  | nil => exact pure
  | cons x xs ih => exact bind (h x) fun _ => ih

end Keeps

end Js
