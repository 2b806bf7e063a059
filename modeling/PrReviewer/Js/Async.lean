import PrReviewer.Js.Action

/-!
# Asynchronous JavaScript code that calls an outside service

`Async C R σ α` is an `async` function with local variables `σ`. It `await`s calls from `C`; a call
`c` fulfils with a value of `R c` or rejects. `throw` and `try … catch` keep the local variables, as
closures do. Nothing is known about the service: `Service` answers each call as a function of all
that happened before, and with each answer says what else the call did (`E`).

`trace` is the run against one service. `Obeys G p` says that whatever the service answers, `p` makes
a call only where `G` allows it after the calls before it; the rules follow the code (`bind`,
`tryCatch`, `call`). A function over a smaller set of calls (`via`) obeys whatever that set obeys.
`allowed_of_trace` is what it is for: `G` holds at every call of every run. `Meets G Q p` says besides that what
`p` ends with satisfies `Q` after its calls.
-/

namespace Js

/-- What is left of an asynchronous function: it has ended, or it awaits a call. -/
inductive Pending (C : Type) (R : C → Type) (α : Type) where
  | done (a : α)
  | await (c : C) (next : Except Exn (R c) → Pending C R α)

/-- One call of a run: how it was answered, and what else it did. -/
structure Entry (C : Type) (R : C → Type) (E : Type) where
  call : C
  reply : Except Exn (R call)
  effect : E

/-- An outside service: what it answers to a call, after the calls before it. -/
abbrev Service (C : Type) (R : C → Type) (E : Type) :=
  List (Entry C R E) → (c : C) → Except Exn (R c) × E

namespace Pending

variable {C C' : Type} {R : C → Type} {R' : C' → Type} {E α β : Type}

def bind : Pending C R α → (α → Pending C R β) → Pending C R β
  | .done a, f => f a
  | .await c next, f => .await c fun r => (next r).bind f

/-- The same function, making its calls as calls of a larger set. -/
def via (f : C' → C) (g : ∀ c, R (f c) → R' c) : Pending C' R' α → Pending C R α
  | .done a => .done a
  | .await c next => .await (f c) fun r => (next (r.map (g c))).via f g

/-- The calls of a run against `w`, after the calls `h`. -/
def trace (w : Service C R E) : Pending C R α → List (Entry C R E) → List (Entry C R E)
  | .done _, _ => []
  | .await c next, h =>
    let a := w h c
    ⟨c, a.1, a.2⟩ :: (next a.1).trace w (h ++ [⟨c, a.1, a.2⟩])

/-- What a run against `w` ends with. -/
def result (w : Service C R E) : Pending C R α → List (Entry C R E) → α
  | .done a, _ => a
  | .await c next, h =>
    let a := w h c
    (next a.1).result w (h ++ [⟨c, a.1, a.2⟩])

/-- Every call is one that `G` allows after the calls before it, whatever those are answered. -/
def Obeys (G : List (Entry C R E) → C → Prop) : Pending C R α → List (Entry C R E) → Prop
  | .done _, _ => True
  | .await c next, h => G h c ∧ ∀ r e, (next r).Obeys G (h ++ [⟨c, r, e⟩])

variable {G : List (Entry C R E) → C → Prop}

variable {p : Pending C R α} {h : List (Entry C R E)}

theorem Obeys.bind {f : α → Pending C R β}
    (hp : p.Obeys G h) (hf : ∀ a h', (f a).Obeys G h') : (p.bind f).Obeys G h := by
  induction p generalizing h with
  | done a => exact hf a h
  | await c next ih =>
    obtain ⟨hc, hnext⟩ := hp
    exact ⟨hc, fun r e => ih r (hnext r e)⟩

theorem Obeys.via {f : C' → C} {g : ∀ c, R (f c) → R' c} (hG : ∀ h c, G h (f c))
    (p : Pending C' R' α) (h : List (Entry C R E)) : (p.via f g).Obeys G h := by
  induction p generalizing h with
  | done a => trivial
  | await c next ih => exact ⟨hG h c, fun r e => ih _ _⟩

/-- Once `I` holds and stays, and is enough for every call, nothing more is to be shown. -/
theorem Obeys.of_stable {I : List (Entry C R E) → Prop} (hI : ∀ h e, I h → I (h ++ [e]))
    (hG : ∀ h c, I h → G h c) (p : Pending C R α) {h : List (Entry C R E)} (hh : I h) :
    p.Obeys G h := by
  induction p generalizing h with
  | done a => trivial
  | await c next ih => exact ⟨hG h c hh, fun r e => ih r (hI h _ hh)⟩

/-- Every call of every run is allowed. -/
theorem Obeys.allowed_of_trace {w : Service C R E}
    {pre post : List (Entry C R E)} {e : Entry C R E} (hp : p.Obeys G h)
    (ht : p.trace w h = pre ++ e :: post) : G (h ++ pre) e.call := by
  induction p generalizing h pre with
  | done a => simp [trace] at ht
  | await c next ih =>
    obtain ⟨hc, hnext⟩ := hp
    cases pre with
    | nil =>
      simp only [trace, List.nil_append, List.cons.injEq] at ht
      obtain ⟨rfl, -⟩ := ht
      simpa using hc
    | cons d pre =>
      simp only [trace, List.cons_append, List.cons.injEq] at ht
      obtain ⟨rfl, ht⟩ := ht
      have := ih _ (hnext _ _) ht
      simpa using this

/-- Every call is one that `G` allows after the calls before it, and what the function ends with satisfies `Q`
after all of them. -/
def Meets (G : List (Entry C R E) → C → Prop) (Q : List (Entry C R E) → α → Prop) :
    Pending C R α → List (Entry C R E) → Prop
  | .done a, h => Q h a
  | .await c next, h => G h c ∧ ∀ r e, (next r).Meets G Q (h ++ [⟨c, r, e⟩])

variable {Q : List (Entry C R E) → β → Prop} {Q' : List (Entry C R E) → α → Prop}

theorem Meets.bind {f : α → Pending C R β}
    (hp : p.Meets G Q' h) (hf : ∀ a h', Q' h' a → (f a).Meets G Q h') : (p.bind f).Meets G Q h := by
  induction p generalizing h with
  | done a => exact hf a h hp
  | await c next ih =>
    obtain ⟨hc, hnext⟩ := hp
    exact ⟨hc, fun r e => ih r (hnext r e)⟩

theorem Meets.obeys (hp : p.Meets G Q' h) :
    p.Obeys G h := by
  induction p generalizing h with
  | done a => trivial
  | await c next ih => exact ⟨hp.1, fun r e => ih r (hp.2 r e)⟩

/-- What a run ends with, after its calls. -/
theorem Meets.result (hp : p.Meets G Q' h)
    (w : Service C R E) : Q' (h ++ p.trace w h) (p.result w h) := by
  induction p generalizing h with
  | done a => simpa [trace, Pending.result, Meets] using hp
  | await c next ih =>
    have hnext := ih _ (hp.2 (w h c).1 (w h c).2)
    simpa [trace, Pending.result] using hnext

end Pending

/-- An `async` function with local variables `σ`. -/
def Async (C : Type) (R : C → Type) (σ α : Type) := σ → Pending C R (Except Exn α × σ)

namespace Async

variable {C C' : Type} {R : C → Type} {R' : C' → Type} {E σ α β : Type}

instance : Monad (Async C R σ) where
  pure a := fun s => .done (.ok a, s)
  bind p f := fun s => (p s).bind fun
    | (.ok a, s') => f a s'
    | (.error e, s') => .done (.error e, s')

instance : MonadExceptOf Exn (Async C R σ) where
  throw e := fun s => .done (.error e, s)
  tryCatch p handler := fun s => (p s).bind fun
    | (.ok a, s') => .done (.ok a, s')
    | (.error e, s') => handler e s'

instance : MonadStateOf σ (Async C R σ) where
  get := fun s => .done (.ok s, s)
  set s' := fun _ => .done (.ok (), s')
  modifyGet f := fun s => .done (.ok (f s).1, (f s).2)

/-- `await api.c()`. -/
def call (c : C) : Async C R σ (R c) := fun s => .await c fun r => .done (r, s)

/-- A synchronous computation that may throw. -/
def lift (x : Except Exn α) : Async C R σ α := fun s => .done (x, s)

def via (f : C' → C) (g : ∀ c, R (f c) → R' c) (p : Async C' R' σ α) : Async C R σ α :=
  fun s => (p s).via f g

/-- Whatever the service answers, and wherever it starts, the function makes only calls that `G`
allows. -/
def Obeys (G : List (Entry C R E) → C → Prop) (p : Async C R σ α) : Prop :=
  ∀ s h, (p s).Obeys G h

variable {G : List (Entry C R E) → C → Prop}

theorem Obeys.pure (a : α) : Obeys G (pure a : Async C R σ α) := fun _ _ => trivial

theorem Obeys.throw (e : Exn) : Obeys G (throw e : Async C R σ α) := fun _ _ => trivial

theorem Obeys.lift (x : Except Exn α) : Obeys G (lift x : Async C R σ α) := fun _ _ => trivial

theorem Obeys.call {c : C} (hc : ∀ h, G h c) : Obeys G (call c : Async C R σ (R c)) :=
  fun _ h => ⟨hc h, fun _ _ => trivial⟩

theorem Obeys.via {f : C' → C} {g : ∀ c, R (f c) → R' c} (hG : ∀ h c, G h (f c))
    (p : Async C' R' σ α) : Obeys G (p.via f g) := fun s h => Pending.Obeys.via hG (p s) h

variable {p : Async C R σ α}

theorem Obeys.bind {f : α → Async C R σ β} (hp : Obeys G p)
    (hf : ∀ a, Obeys G (f a)) : Obeys G (p >>= f) := by
  intro s h
  refine Pending.Obeys.bind (hp s h) fun r h' => ?_
  obtain ⟨r, s'⟩ := r
  cases r with
  | ok a => exact hf a s' h'
  | error e => trivial

theorem Obeys.map {f : α → β} (hp : Obeys G p) : Obeys G (f <$> p) :=
  Obeys.bind hp fun _ => Obeys.pure _

/-- A call and what follows it, which knows the call and its reply. -/
theorem obeys_call_bind {c : C} {f : R c → Async C R σ β} {s : σ} {h : List (Entry C R E)}
    (hc : G h c) (hf : ∀ a m, (f a s).Obeys G (h ++ [⟨c, .ok a, m⟩])) :
    ((Async.call c >>= f) s).Obeys G h := by
  refine ⟨hc, fun r m => ?_⟩
  cases r with
  | ok a => exact hf a m
  | error e => trivial

theorem Obeys.tryCatch {p : Async C R σ α} {handler : Exn → Async C R σ α} (hp : Obeys G p)
    (hh : ∀ e, Obeys G (handler e)) : Obeys G (tryCatch p handler) := by
  intro s h
  refine Pending.Obeys.bind (hp s h) fun r h' => ?_
  obtain ⟨r, s'⟩ := r
  cases r with
  | ok a => trivial
  | error e => exact hh e s' h'

theorem Obeys.ite {c : Prop} [Decidable c] {q : Async C R σ α} (hp : Obeys G p)
    (hq : Obeys G q) : Obeys G (if c then p else q) := by
  split
  · exact hp
  · exact hq

/-- The run of an `async` function against the service `w`, from the local variables `s`. -/
def trace (p : Async C R σ α) (w : Service C R E) (s : σ) : List (Entry C R E) :=
  (p s).trace w []

/-- Every call of every run is allowed. -/
theorem Obeys.allowed (hp : Obeys G p) {w : Service C R E} {s : σ}
    {pre post : List (Entry C R E)} {e : Entry C R E} (ht : p.trace w s = pre ++ e :: post) :
    G pre e.call := by
  simpa using (hp s []).allowed_of_trace ht

end Async

end Js
