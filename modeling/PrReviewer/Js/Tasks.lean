import PrReviewer.Js.Async
import PrReviewer.Js.Log

/-!
# Interleaved asynchronous functions

Several calls of `async` functions over one shared state. What a call does to the state and how it is answered is one
step (`serve`); between two calls of one task anything may happen. A call that `sync` marks is no `await`: the
task goes on at once.

- **One task** (`Pending.Safe`): a `Contract` says what others may do to the state between the calls (`rely`), what the
  task promises of each call (`allow`, before it; `guar`, of its effect), and what may be assumed of a call when it is
  served (`assume`). `Q` holds of what the task ends with. The rules follow the code; `Safe.of_obeys` is for code whose
  calls alone keep a property.
- **All tasks** (`Tasks`): `start`, `resume` and `kill`. A task keeps the history of its calls.
-/

namespace Js

/-- What a task may count on and what it promises. -/
structure Contract (C : Type) (R : C → Type) (σ δ : Type) where
  rely : σ → σ → Prop
  assume : C → δ → σ → Prop
  allow : List (Entry C R PUnit) → C → σ → Prop
  guar : σ → σ → Prop

section

variable {C : Type} {R : C → Type} {σ δ α β : Type} (serve : (c : C) → δ → σ → Except Exn (R c) × σ)
  (sync : C → Bool)

namespace Pending

/-- Up to the next `await`, with the calls made. -/
def advance (d : δ) : Pending C R α → List (Entry C R PUnit) → σ →
    Pending C R α × List (Entry C R PUnit) × σ
  | .done a, h, s => (.done a, h, s)
  | .await c next, h, s =>
    if sync c then
      (next (serve c d s).1).advance d (h ++ [⟨c, (serve c d s).1, ⟨⟩⟩]) (serve c d s).2
    else (.await c next, h, s)

/-- The function has ended, or it waits. -/
def Parked : Pending C R α → Prop
  | .done _ => True
  | .await c _ => sync c = false

variable (K : Contract C R σ δ) (Q : α → List (Entry C R PUnit) → σ → Prop)

/-- Whatever others do within `rely`, each call is allowed and has an effect within `guar`, and `Q` holds at the end. -/
def Safe : Pending C R α → List (Entry C R PUnit) → σ → Prop
  | .done a, h, s => Q a h s
  | .await c next, h, s =>
    ∀ s', (if sync c then s' = s else K.rely s s') → K.allow h c s' ∧
      ∀ d, (sync c = true ∨ K.assume c d s') → K.guar s' (serve c d s').2 ∧
        (next (serve c d s').1).Safe (h ++ [⟨c, (serve c d s').1, ⟨⟩⟩]) (serve c d s').2

end Pending

end

namespace Pending

variable {C : Type} {R : C → Type} {σ δ α β : Type} {serve : (c : C) → δ → σ → Except Exn (R c) × σ}
  {sync : C → Bool} {K : Contract C R σ δ} {Q Q' : α → List (Entry C R PUnit) → σ → Prop}
  {p : Pending C R α} {h : List (Entry C R PUnit)} {s s' : σ}

theorem Safe.mono (hp : p.Safe serve sync K Q h s) (hQ : ∀ a h s, Q a h s → Q' a h s) :
    p.Safe serve sync K Q' h s := by
  induction p generalizing h s with
  | done a => exact hQ a h s hp
  | await c next ih =>
    intro s' hs'
    obtain ⟨hallow, hserve⟩ := hp s' hs'
    exact ⟨hallow, fun d hd => ⟨(hserve d hd).1, ih _ (hserve d hd).2⟩⟩

theorem Safe.bind {f : α → Pending C R β} {S : β → List (Entry C R PUnit) → σ → Prop}
    (hp : p.Safe serve sync K Q h s) (hf : ∀ a h s, Q a h s → (f a).Safe serve sync K S h s) :
    (p.bind f).Safe serve sync K S h s := by
  induction p generalizing h s with
  | done a => exact hf a h s hp
  | await c next ih =>
    intro s' hs'
    obtain ⟨hallow, hserve⟩ := hp s' hs'
    exact ⟨hallow, fun d hd => ⟨(hserve d hd).1, ih _ (hserve d hd).2⟩⟩

/-- A task that waits stays safe under what it relies on. -/
theorem Safe.stable {c : C} {next : Except Exn (R c) → Pending C R α}
    (hp : (Pending.await c next).Safe serve sync K Q h s) (hc : sync c = false)
    (htrans : ∀ {a b c}, K.rely a b → K.rely b c → K.rely a c) (hs : K.rely s s') :
    (Pending.await c next).Safe serve sync K Q h s' := by
  intro t ht
  refine hp t ?_
  rw [hc] at ht ⊢
  exact htrans hs ht

/-- Code whose calls all satisfy `A`, where those keep `I`. -/
theorem Safe.of_obeys {A : C → Prop} {I : σ → Prop} (hp : p.Obeys (fun _ c => A c) h)
    (hrely : ∀ s s', I s → K.rely s s' → I s')
    (hcall : ∀ h c s, A c → I s → K.allow h c s ∧
      ∀ d, (sync c = true ∨ K.assume c d s) → K.guar s (serve c d s).2 ∧ I (serve c d s).2)
    (hs : I s) : p.Safe serve sync K (fun _ _ => I) h s := by
  induction p generalizing h s with
  | done a => exact hs
  | await c next ih =>
    intro s' hs'
    have hI : I s' := by
      split at hs'
      · exact hs' ▸ hs
      · exact hrely s s' hs hs'
    obtain ⟨hallow, hserve⟩ := hcall h c s' hp.1 hI
    exact ⟨hallow, fun d hd => ⟨(hserve d hd).1, ih _ (hp.2 _ _) (hserve d hd).2⟩⟩

theorem Safe.advance (hp : p.Safe serve sync K Q h s) (hrefl : ∀ s, K.guar s s)
    (htrans : ∀ {a b c}, K.guar a b → K.guar b c → K.guar a c) (d : δ) :
    K.guar s (p.advance serve sync d h s).2.2 ∧
      (p.advance serve sync d h s).1.Safe serve sync K Q (p.advance serve sync d h s).2.1
        (p.advance serve sync d h s).2.2 ∧
      (p.advance serve sync d h s).1.Parked sync := by
  induction p generalizing h s with
  | done a => exact ⟨hrefl s, hp, trivial⟩
  | await c next ih =>
    unfold Pending.advance
    cases hc : sync c with
    | false => exact ⟨hrefl s, hp, hc⟩
    | true =>
      obtain ⟨-, hserve⟩ := hp s (by simp [hc])
      obtain ⟨hguar, hnext⟩ := hserve d (.inl hc)
      obtain ⟨hguar', hsafe, hparked⟩ := ih _ hnext
      exact ⟨htrans hguar hguar', hsafe, hparked⟩

/-- The next call is served, and the task goes on up to the next `await`. -/
def served (serve : (c : C) → δ → σ → Except Exn (R c) × σ) (sync : C → Bool) (c : C)
    (next : Except Exn (R c) → Pending C R α) (d : δ) (h : List (Entry C R PUnit)) (s : σ) :
    Pending C R α × List (Entry C R PUnit) × σ :=
  (next (serve c d s).1).advance serve sync d (h ++ [⟨c, (serve c d s).1, ⟨⟩⟩]) (serve c d s).2

theorem Safe.served {c : C} {next : Except Exn (R c) → Pending C R α} {d : δ}
    (hp : (Pending.await c next).Safe serve sync K Q h s) (hd : K.assume c d s) (hrely : K.rely s s)
    (hrefl : ∀ s, K.guar s s) (htrans : ∀ {a b c}, K.guar a b → K.guar b c → K.guar a c) :
    K.guar s (Pending.served serve sync c next d h s).2.2 ∧
      (Pending.served serve sync c next d h s).1.Safe serve sync K Q (Pending.served serve sync c next d h s).2.1
        (Pending.served serve sync c next d h s).2.2 ∧
      (Pending.served serve sync c next d h s).1.Parked sync := by
  obtain ⟨-, hserve⟩ := hp s (by split <;> [rfl; exact hrely])
  obtain ⟨hguar, hnext⟩ := hserve d (.inr hd)
  obtain ⟨hguar', hsafe, hparked⟩ := hnext.advance hrefl htrans d
  exact ⟨htrans hguar hguar', hsafe, hparked⟩

end Pending

/-! ## Code with exceptions -/

namespace Async

variable {C : Type} {R : C → Type} {σ δ α β : Type} (serve : (c : C) → δ → σ → Except Exn (R c) × σ)
  (sync : C → Bool) (K : Contract C R σ δ)

/-- `Pending.Safe` for code without local variables; `Q` holds of the value or the error. -/
def Safe (p : Async C R Unit α) (Q : Except Exn α → List (Entry C R PUnit) → σ → Prop) (h : List (Entry C R PUnit))
    (s : σ) : Prop :=
  (p ()).Safe serve sync K (fun r => Q r.1) h s

variable {serve sync K} {p : Async C R Unit α} {h : List (Entry C R PUnit)} {s : σ}
  {Q Q' : Except Exn α → List (Entry C R PUnit) → σ → Prop}

theorem Safe.mono (hp : Safe serve sync K p Q h s) (hQ : ∀ r h s, Q r h s → Q' r h s) :
    Safe serve sync K p Q' h s := Pending.Safe.mono hp fun r => hQ r.1

theorem Safe.bind {f : α → Async C R Unit β} {S : Except Exn β → List (Entry C R PUnit) → σ → Prop}
    (hp : Safe serve sync K p Q h s) (hok : ∀ a h s, Q (.ok a) h s → Safe serve sync K (f a) S h s)
    (herror : ∀ e h s, Q (.error e) h s → S (.error e) h s) : Safe serve sync K (p >>= f) S h s := by
  refine Pending.Safe.bind hp fun r h s hr => ?_
  match r, hr with
  | (.ok a, _), hr => exact hok a h s hr
  | (.error e, _), hr => exact herror e h s hr

theorem Safe.map {f : α → β} {S : Except Exn β → List (Entry C R PUnit) → σ → Prop}
    (hp : Safe serve sync K p Q h s) (hQ : ∀ r h s, Q r h s → S (r.map f) h s) : Safe serve sync K (f <$> p) S h s :=
  Safe.bind hp (fun a h s => hQ (.ok a) h s) fun e h s => hQ (.error e) h s

theorem Safe.tryCatch {handler : Exn → Async C R Unit α} {S : Except Exn α → List (Entry C R PUnit) → σ → Prop}
    (hp : Safe serve sync K p Q h s) (hok : ∀ a h s, Q (.ok a) h s → S (.ok a) h s)
    (herror : ∀ e h s, Q (.error e) h s → Safe serve sync K (handler e) S h s) :
    Safe serve sync K (MonadExcept.tryCatch p handler) S h s := by
  refine Pending.Safe.bind hp fun r h s hr => ?_
  match r, hr with
  | (.ok a, _), hr => exact hok a h s hr
  | (.error e, _), hr => exact herror e h s hr

/-- An awaited call. -/
theorem Safe.call {c : C} (hc : sync c = false) {Q : Except Exn (R c) → List (Entry C R PUnit) → σ → Prop}
    (h' : ∀ s', K.rely s s' → K.allow h c s' ∧ ∀ d, K.assume c d s' → K.guar s' (serve c d s').2 ∧
      Q (serve c d s').1 (h ++ [⟨c, (serve c d s').1, ⟨⟩⟩]) (serve c d s').2) :
    Safe serve sync K (Async.call c) Q h s := by
  intro s' hs'
  rw [hc] at hs'
  obtain ⟨hallow, hserve⟩ := h' s' hs'
  refine ⟨hallow, fun d hd => hserve d ?_⟩
  simpa [hc] using hd

/-- A call that is answered at once. -/
theorem Safe.call_sync {c : C} (hc : sync c = true) {Q : Except Exn (R c) → List (Entry C R PUnit) → σ → Prop}
    (hallow : K.allow h c s) (hserve : ∀ d, K.guar s (serve c d s).2 ∧
      Q (serve c d s).1 (h ++ [⟨c, (serve c d s).1, ⟨⟩⟩]) (serve c d s).2) : Safe serve sync K (Async.call c) Q h s := by
  intro s' hs'
  rw [hc] at hs'
  obtain rfl : s' = s := hs'
  exact ⟨hallow, fun d _ => hserve d⟩

/-- Code whose calls all satisfy `A`, where those keep `I`. -/
theorem Safe.of_obeys {A : C → Prop} {I : σ → Prop} (hp : Obeys (E := PUnit) (fun _ c => A c) p)
    (hrely : ∀ s s', I s → K.rely s s' → I s')
    (hcall : ∀ h c s, A c → I s → K.allow h c s ∧
      ∀ d, (sync c = true ∨ K.assume c d s) → K.guar s (serve c d s).2 ∧ I (serve c d s).2)
    (hs : I s) : Safe serve sync K p (fun _ _ => I) h s :=
  Pending.Safe.of_obeys (hp () h) hrely hcall hs

end Async

/-! ## Tasks -/

/-- A call of an asynchronous function: what it is called as, its calls so far, and what is left of it. -/
structure Task (C : Type) (R : C → Type) (τ α : Type) where
  label : τ
  history : List (Entry C R PUnit)
  rest : Pending C R α
  /-- Its process runs. -/
  alive : Bool

namespace Task

variable {C : Type} {R : C → Type} {τ α : Type} (t : Task C R τ α)

/-- The call that it awaits. -/
def next? : Option C :=
  match t.alive, t.rest with
  | true, .await c _ => some c
  | _, _ => none

/-- What it has ended with. -/
def result? : Option α :=
  match t.rest with
  | .done a => some a
  | .await _ _ => none

end Task

structure Tasks (C : Type) (R : C → Type) (τ α σ : Type) where
  shared : σ
  tasks : List (Task C R τ α)

namespace Tasks

variable {C : Type} {R : C → Type} {τ α σ δ : Type} (serve : (c : C) → δ → σ → Except Exn (R c) × σ) (sync : C → Bool)

/-- A call reaches the shared state only. -/
def onShared (c : C) (d : δ) (s : Tasks C R τ α σ) : Except Exn (R c) × Tasks C R τ α σ :=
  ((serve c d s.shared).1, { s with shared := (serve c d s.shared).2 })

/-- The function is called, and goes on up to its first `await`. -/
def start (label : τ) (p : Pending C R α) (d : δ) (s : Tasks C R τ α σ) : Tasks C R τ α σ :=
  let (rest, history, s) := p.advance (onShared serve) sync d [] s
  { s with tasks := s.tasks ++ [⟨label, history, rest, true⟩] }

/-- The call that task `i` awaits is served. -/
def resume (i : Nat) (d : δ) (s : Tasks C R τ α σ) : Tasks C R τ α σ :=
  match s.tasks[i]? with
  | none => s
  | some t =>
    match t.alive, t.rest with
    | true, .await c next =>
      let (rest, history, s) := Pending.served (onShared serve) sync c next d t.history s
      { s with tasks := s.tasks.set i { t with history, rest } }
    | _, _ => s

/-- The process ends. -/
def kill (s : Tasks C R τ α σ) : Tasks C R τ α σ := { s with tasks := s.tasks.map fun t => { t with alive := false } }

variable {serve sync}

theorem advance_invariant {ρ : Type} {serve : (c : C) → δ → ρ → Except Exn (R c) × ρ} {I : ρ → Prop}
    (hI : ∀ c d s, I s → I (serve c d s).2) (d : δ) (p : Pending C R α) {h : List (Entry C R PUnit)} {s : ρ} (hs : I s) :
    I (p.advance serve sync d h s).2.2 := by
  induction p generalizing h s with
  | done a => exact hs
  | await c next ih =>
    unfold Pending.advance
    split
    · exact ih _ (hI c d s hs)
    · exact hs

theorem advance_tasks (d : δ) (p : Pending C R α) (h : List (Entry C R PUnit)) (s : Tasks C R τ α σ) :
    (p.advance (onShared serve) sync d h s).2.2.tasks = s.tasks := by
  induction p generalizing h s with
  | done a => rfl
  | await c next ih =>
    unfold Pending.advance
    split
    · exact ih _ _ _
    · rfl

section Shared

variable {I : σ → Prop} (hI : ∀ c d w, I w → I (serve c d w).2)

include hI

/-- What every call keeps of the shared state, a new task keeps. -/
theorem start_shared {label : τ} {p : Pending C R α} {d : δ} {s : Tasks C R τ α σ} (hs : I s.shared) :
    I (s.start serve sync label p d).shared :=
  advance_invariant (I := fun s : Tasks C R τ α σ => I s.shared) (fun c d s => hI c d s.shared) d p hs

theorem resume_shared {i : Nat} {d : δ} {s : Tasks C R τ α σ} (hs : I s.shared) :
    I (s.resume serve sync i d).shared := by
  unfold resume
  split
  · exact hs
  split
  · exact advance_invariant (I := fun s : Tasks C R τ α σ => I s.shared) (fun c d s => hI c d s.shared) d _
      (hI _ d s.shared hs)
  · exact hs

end Shared

/-- A task that has just been called, or one that was there. -/
theorem start_cases {label : τ} {p : Pending C R α} {d : δ} {s : Tasks C R τ α σ} {i : Nat} {t : Task C R τ α}
    (h : (s.start serve sync label p d).tasks[i]? = some t) :
    (i = s.tasks.length ∧
        t = ⟨label, (p.advance (onShared serve) sync d [] s).2.1, (p.advance (onShared serve) sync d [] s).1, true⟩) ∨
      s.tasks[i]? = some t := by
  unfold start at h
  dsimp only at h
  rw [advance_tasks] at h
  exact getElem?_snoc h

end Tasks
end Js
