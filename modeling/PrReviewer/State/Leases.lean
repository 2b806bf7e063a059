import PrReviewer.Js.Order
import PrReviewer.Js.Trail
import PrReviewer.State.Restart

/-!
# Run leases

What happens to one run, over any sequence of calls: its `history` is the list of the lease calls on it that
answered `true` and of its transitions that went through, and the record follows that history step by step
(`Follows`, `history_trail`).

- **Leases** (`Trail.holds`): after a lease call of an owner the run stays with that owner until the expiry,
  as long as the owner does not renew.

The expiry is the one that the latest lease call of the owner asked for: a renewal may shorten it, and a run
may come back to a state that it has left.
-/

open Js List

namespace PrReviewer.State

open Queue (JobLifecycleState canTransition isTerminalState canTransition_of_terminal)

/-! ## The history of a run -/

/-- A change of a run: a lease call that answered `true`, or a transition. -/
inductive RunEvent where
  | leased (owner : String) (nowMs ttlMs : Number)
  | moved (source target : JobLifecycleState)
  deriving DecidableEq

/-- The transition of the run `id` that a mutation asks for. -/
def moveOf (id : String) : StateMutation → Option RunEvent
  | .transitionRun runId source target _ _ _ _ =>
    if runId = id then some (.moved source target) else none
  | _ => none

/-- What a call that succeeds does to the run `id`. -/
def eventsOf (payloadOk : String → Bool) (id : String) (t : StateTables) (c : StoreCall) :
    List RunEvent :=
  match c, perform payloadOk t c with
  | .apply batch, .ok _ => batch.filterMap (moveOf id)
  | .claimRun runId owner nowMs ttlMs, .ok (true, _)
  | .heartbeatRun runId owner nowMs ttlMs, .ok (true, _) =>
    if runId = id then [.leased owner nowMs ttlMs] else []
  | _, _ => []

/-- The history of the run `id` over a sequence of calls. -/
def history (payloadOk : String → Bool) (id : String) : StateTables → List StoreCall → List RunEvent
  | _, [] => []
  | t, c :: cs => eventsOf payloadOk id t c ++ history payloadOk id (step payloadOk t c) cs

/-- The record after an event. -/
inductive Follows (r : RunRecord) : RunEvent → RunRecord → Prop
  | leased {owner nowMs ttlMs expiry} (going : isTerminalState r.state = false)
      (free : r.heldByOther owner nowMs = false) (named : isLeaseOwner owner = true)
      (window : validateLeaseWindow nowMs ttlMs = some expiry) :
      Follows r (.leased owner nowMs ttlMs) (r.leased owner expiry nowMs)
  | moved {target patch nowMs} (legal : canTransition r.state target = true) :
      Follows r (.moved r.state target) (transitioned r target patch nowMs)

/-- The events lead from what was stored under an id to what is stored now; the run may have been
created on the way. -/
def Reaches : Option RunRecord → List RunEvent → Option RunRecord → Prop
  | none, es, none => es = []
  | none, es, some r' => ∃ r, Trail Follows r es r'
  | some r, es, some r' => Trail Follows r es r'
  | some _, _, none => False

theorem Reaches.refl (o : Option RunRecord) : Reaches o [] o := by
  cases o with
  | none => rfl
  | some r => exact Trail.refl (R := Follows) r

theorem Reaches.append {o o' o'' : Option RunRecord} {es es' : List RunEvent} (h : Reaches o es o')
    (h' : Reaches o' es' o'') : Reaches o (es ++ es') o'' := by
  cases o <;> cases o' <;> cases o'' <;> simp only [Reaches] at h h' ⊢
  · simp [h, h']
  · rw [h]
    exact h'
  · obtain ⟨r, h⟩ := h
    exact ⟨r, Trail.append.mpr ⟨_, h, h'⟩⟩
  · exact Trail.append.mpr ⟨_, h, h'⟩

section History

variable {payloadOk : String → Bool} {t t' : StateTables} {id : String}

theorem Wrote.reaches {m : StateMutation} (h : Wrote payloadOk t m t') :
    Reaches (t.runs.get? id) (moveOf id m).toList (t'.runs.get? id) := by
  cases h with
  | @createRun v r valid fresh =>
    rw [Map.get?_set]
    split
    · next hid =>
      subst hid
      rw [fresh]
      exact ⟨r, .refl r⟩
    · exact .refl _
  | @transitionRun runId _ _ _ _ _ _ _ _ _ finite legal found state patched =>
    rw [Map.get?_set]
    by_cases hid : runId = id
    · subst hid state
      simp only [moveOf, if_pos, found]
      exact Trail.single (R := Follows) (.moved legal)
    · rw [if_neg (Ne.symm hid)]
      simp only [moveOf, if_neg hid]
      exact .refl _
  | _ => exact .refl _

theorem Leased.reaches {runId owner : String} {nowMs ttlMs : Number} {b : Bool}
    (h : Leased t runId owner nowMs ttlMs b t') (id : String) :
    Reaches (t.runs.get? id)
      (if b = true ∧ runId = id then [.leased owner nowMs ttlMs] else []) (t'.runs.get? id) := by
  cases h with
  | refused => exact .refl _
  | set found going free named window =>
    rw [Map.get?_set]
    by_cases hid : runId = id
    · subst hid
      rw [if_pos ⟨rfl, rfl⟩, if_pos rfl, found]
      exact Trail.single (R := Follows) (.leased going free named window)
    · rw [if_neg (fun h => hid h.2), if_neg (Ne.symm hid)]
      exact .refl _

theorem reaches_batch {batch : List StateMutation} (h : applyBatch payloadOk t batch = .ok t') :
    Reaches (t.runs.get? id) (batch.filterMap (moveOf id)) (t'.runs.get? id) := by
  unfold applyBatch at h
  induction batch generalizing t with
  | nil =>
    cases h
    exact .refl _
  | cons m batch ih =>
    rw [foldlM_cons] at h
    obtain ⟨t₁, hm, h⟩ := Except.of_bind_ok h
    have hevents : (m :: batch).filterMap (moveOf id) =
        (moveOf id m).toList ++ batch.filterMap (moveOf id) := by
      rw [filterMap_cons]
      cases moveOf id m <;> rfl
    rw [hevents]
    exact (wrote_of_ok hm).reaches.append (ih h)

theorem reaches_step (c : StoreCall) :
    Reaches (t.runs.get? id) (eventsOf payloadOk id t c) ((step payloadOk t c).runs.get? id) := by
  unfold step eventsOf
  cases hc : perform payloadOk t c with
  | error e => cases c <;> exact .refl _
  | ok answer =>
    obtain ⟨b, t'⟩ := answer
    cases c with
    | apply batch =>
      obtain ⟨t'', hbatch, heq⟩ := Except.of_map_ok hc
      cases heq
      exact reaches_batch hbatch
    | claimRun runId owner nowMs ttlMs =>
      have hreaches := (leased_of_claimRun hc).reaches id
      cases b <;> simpa using hreaches
    | heartbeatRun runId owner nowMs ttlMs =>
      have hreaches := (leased_of_heartbeatRun hc).reaches id
      cases b <;> simpa using hreaches

/-- What is stored under an id follows the history. -/
theorem reaches_history (payloadOk : String → Bool) (id : String) (t : StateTables) (calls : List StoreCall) :
    Reaches (t.runs.get? id) (history payloadOk id t calls)
      ((Machine.run (step payloadOk) t calls).runs.get? id) := by
  induction calls generalizing t with
  | nil => exact .refl _
  | cons c cs ih => exact (reaches_step c).append (ih _)

end History

/-! ## Along a history -/

/-- The run is leased to `owner` until `expiry`, or has ended. -/
def HeldUntil (owner : String) (expiry : Number) (r : RunRecord) : Prop :=
  r.leaseOwner = owner ∧ r.leaseExpiresAtMs = expiry ∨ isTerminalState r.state = true

section Follows

variable {r r' : RunRecord} {es : List RunEvent}

theorem transitioned_state (r : RunRecord) (target : JobLifecycleState) (patch : RunPatch)
    (nowMs : Number) : (transitioned r target patch nowMs).state = target := rfl

/-- No event follows in a run that has ended. -/
theorem Follows.not_terminal {e : RunEvent} (h : Follows r e r') : isTerminalState r.state = false := by
  cases h with
  | leased going => exact going
  | moved legal =>
    by_contra hterminal
    rw [canTransition_of_terminal (by simpa using hterminal)] at legal
    cases legal

/-- A lease that is not renewed stays until it expires: no event by another owner comes before. -/
theorem HeldUntil.follows {owner : String} {expiry : Number} {e : RunEvent} (h : HeldUntil owner expiry r)
    (howner : owner ≠ "") (hf : Follows r e r') (hmine : ∀ x d, e ≠ .leased owner x d)
    (hbefore : ∀ b x d, e = .leased b x d → x < expiry) : HeldUntil owner expiry r' := by
  obtain ⟨hheld, hexpiry⟩ | hterminal := h
  · cases hf with
    | @leased b x d y going free named window =>
      have hb : b ≠ owner := fun hb => hmine x d (hb ▸ rfl)
      have hx : x < expiry := hbefore b x d rfl
      simp [RunRecord.heldByOther, hheld, hexpiry, howner, Ne.symm hb, hx] at free
    | @moved target patch nowMs legal =>
      unfold HeldUntil
      rw [transitioned_state]
      cases hterminal : isTerminalState target with
      | true => exact .inr rfl
      | false =>
        refine .inl ⟨?_, ?_⟩ <;> simp [transitioned, hterminal, hheld, hexpiry]
  · rw [hf.not_terminal] at hterminal
    cases hterminal

/-- A run that has left a state is not in it until a transition brings it back. -/
theorem Follows.away {s : JobLifecycleState} {e : RunEvent} (h : Follows r e r') (hr : r.state ≠ s)
    (hback : ∀ z, e ≠ .moved z s) : r'.state ≠ s := by
  cases h with
  | leased => exact hr
  | moved legal =>
    rw [transitioned_state]
    rintro rfl
    exact hback _ rfl

end Follows

theorem canTransition_self (s : JobLifecycleState) : canTransition s s = false := by
  cases s <;> rfl

/-! ## Times -/

/-- The time of a lease call on the run. -/
def leaseTime (id : String) : StoreCall → Option Number
  | .claimRun runId _ nowMs _ | .heartbeatRun runId _ nowMs _ =>
    if runId = id then some nowMs else none
  | .apply _ => none

def RunEvent.time : RunEvent → Option Number
  | .leased _ nowMs _ => some nowMs
  | .moved _ _ => none

/-- The clocks of the lease calls on the run do not run backwards. -/
def Nondecreasing (id : String) (calls : List StoreCall) : Prop :=
  (calls.filterMap (leaseTime id)).Pairwise (· ≤ ·)

theorem times_moves (id : String) (batch : List StateMutation) :
    (batch.filterMap (moveOf id)).filterMap RunEvent.time = [] := by
  rw [filterMap_filterMap, filterMap_eq_nil_iff]
  intro m _
  cases m with
  | transitionRun runId =>
    simp only [moveOf]
    split <;> rfl
  | _ => rfl

theorem times_eventsOf (payloadOk : String → Bool) (id : String) (t : StateTables) (c : StoreCall) :
    ((eventsOf payloadOk id t c).filterMap RunEvent.time).Sublist (leaseTime id c).toList := by
  unfold eventsOf
  split
  · rw [times_moves]
    exact nil_sublist _
  · simp only [leaseTime]
    split <;> simp [RunEvent.time]
  · simp only [leaseTime]
    split <;> simp [RunEvent.time]
  · exact nil_sublist _

theorem times_history (payloadOk : String → Bool) (id : String) (t : StateTables)
    (calls : List StoreCall) :
    ((history payloadOk id t calls).filterMap RunEvent.time).Sublist (calls.filterMap (leaseTime id)) := by
  induction calls generalizing t with
  | nil => simp [history]
  | cons c cs ih =>
    have hcons : (c :: cs).filterMap (leaseTime id) = (leaseTime id c).toList ++ cs.filterMap (leaseTime id) := by
      rw [filterMap_cons]
      cases leaseTime id c <;> rfl
    rw [history, filterMap_append, hcons]
    exact (times_eventsOf payloadOk id t c).append (ih _)

/-! ## Exclusion -/

section Exclusion

variable {r r' : RunRecord} {l₁ l₂ l₃ : List RunEvent}

/-- Between a lease of `a` and a lease of another owner before its expiry, `a` has renewed. -/
theorem lease_exclusive {a b : String} {x d y e : Number}
    (h : Trail Follows r (l₁ ++ .leased a x d :: (l₂ ++ .leased b y e :: l₃)) r') (hb : b ≠ a)
    (hmine : ∀ x' d', .leased a x' d' ∉ l₂) (htimes : ∀ c x' d', .leased c x' d' ∈ l₂ → x' ≤ y) :
    ¬ y < x + d := by
  intro hlt
  obtain ⟨r₀, -, r₁, hfirst, h⟩ := Trail.append.mp h
  obtain ⟨r₂, hbetween, r₃, hsecond, -⟩ := Trail.append.mp h
  obtain ⟨hheld, hname⟩ : HeldUntil a (x + d) r₁ ∧ a ≠ "" := by
    cases hfirst with
    | leased going free named window =>
      refine ⟨.inl ⟨rfl, (validateLeaseWindow_some window).2.2⟩, ?_⟩
      rintro rfl
      cases named
  have hkept : HeldUntil a (x + d) r₂ := by
    refine hbetween.invariant hheld fun s ev hev s' hs hf => hs.follows hname hf ?_ ?_
    · rintro x' d' rfl
      exact hmine x' d' hev
    · rintro c x' d' rfl
      exact Number.lt_of_le_of_lt (htimes c x' d' hev) hlt
  -- the lease of `b` would be one more event before the expiry
  have hlast : HeldUntil a (x + d) r₃ := by
    refine hkept.follows hname hsecond (fun x' d' heq => ?_) fun c x' d' heq => ?_
    · cases heq
      exact hb rfl
    · cases heq
      exact hlt
  cases hsecond with
  | leased going free named window =>
    obtain ⟨howner, -⟩ | hterminal := hlast
    · exact hb howner
    · rw [show (r₂.leased b _ y).state = r₂.state from rfl, going] at hterminal
      cases hterminal

/-- Between two transitions from one state lies a transition back into it. -/
theorem moved_twice {s u v : JobLifecycleState}
    (h : Trail Follows r (l₁ ++ .moved s u :: (l₂ ++ .moved s v :: l₃)) r') : ∃ z, .moved z s ∈ l₂ := by
  obtain ⟨r₀, -, r₁, hfirst, h⟩ := Trail.append.mp h
  obtain ⟨r₂, hbetween, r₃, hsecond, -⟩ := Trail.append.mp h
  by_contra hnone
  have haway : r₁.state ≠ s := by
    cases hfirst with
    | moved legal =>
      rw [transitioned_state]
      rintro heq
      rw [heq, canTransition_self] at legal
      cases legal
  have haway₂ : r₂.state ≠ s := hbetween.invariant haway fun m ev hev m' hm hf =>
    hf.away hm fun z heq => hnone ⟨z, heq ▸ hev⟩
  cases hsecond with
  | moved legal => exact haway₂ rfl

/-- Nothing follows a transition into a terminal state, and the run keeps no lease. -/
theorem moved_terminal {s u : JobLifecycleState} (h : Trail Follows r (l₁ ++ .moved s u :: l₂) r')
    (hu : isTerminalState u = true) : l₂ = [] ∧ r'.state = u ∧ r'.leaseOwner = "" := by
  obtain ⟨r₀, -, r₁, hfirst, h⟩ := Trail.append.mp h
  cases hfirst with
  | moved legal =>
    cases l₂ with
    | nil =>
      cases h
      exact ⟨rfl, rfl, by simp [transitioned, hu]⟩
    | cons ev l₂ =>
      obtain ⟨m, hm, -⟩ := h
      have hgoing := hm.not_terminal
      rw [transitioned_state, hu] at hgoing
      cases hgoing

theorem Reaches.trail {o o' : Option RunRecord} {es : List RunEvent} (h : Reaches o es o')
    (hes : es ≠ []) : ∃ r r', o' = some r' ∧ Trail Follows r es r' := by
  cases o <;> cases o' <;> simp only [Reaches] at h
  · exact absurd h hes
  · next r' =>
    obtain ⟨r, h⟩ := h
    exact ⟨r, r', rfl, h⟩
  · next r r' => exact ⟨r, r', rfl, h⟩

/-- Along every sequence of calls whose lease calls on a run have nondecreasing clocks: another owner takes
the lease before it expires only when its owner has renewed it meanwhile, two transitions from one state
have one back into it between them, and a terminal transition is the last event of the run, which then
keeps no lease. -/
theorem lease_history (payloadOk : String → Bool) (id : String) (t : StateTables)
    (calls : List StoreCall) (hclock : Nondecreasing id calls) :
    (∀ l₁ a x d l₂ b y e l₃,
      history payloadOk id t calls = l₁ ++ .leased a x d :: (l₂ ++ .leased b y e :: l₃) → b ≠ a →
      (∀ x' d', .leased a x' d' ∉ l₂) → ¬ y < x + d) ∧
    (∀ l₁ s u l₂ v l₃,
      history payloadOk id t calls = l₁ ++ .moved s u :: (l₂ ++ .moved s v :: l₃) →
      ∃ z, .moved z s ∈ l₂) ∧
    (∀ l₁ s u l₂, history payloadOk id t calls = l₁ ++ .moved s u :: l₂ → isTerminalState u = true →
      l₂ = [] ∧ ∃ r, (Machine.run (step payloadOk) t calls).runs.get? id = some r ∧
        r.state = u ∧ r.leaseOwner = "") := by
  have hreaches := reaches_history payloadOk id t calls
  refine ⟨fun l₁ a x d l₂ b y e l₃ heq hb hmine => ?_, fun l₁ s u l₂ v l₃ heq => ?_,
    fun l₁ s u l₂ heq hu => ?_⟩
  · obtain ⟨r, r', -, htrail⟩ := hreaches.trail (by rw [heq]; simp)
    rw [heq] at htrail
    have htimes := hclock.sublist (times_history payloadOk id t calls)
    rw [heq, pairwise_filterMap, pairwise_append, pairwise_cons, pairwise_append] at htimes
    obtain ⟨-, ⟨-, -, -, hbetween⟩, -⟩ := htimes
    exact lease_exclusive htrail hb hmine fun c x' d' hmem =>
      hbetween _ hmem _ mem_cons_self x' rfl y rfl
  · obtain ⟨r, r', -, htrail⟩ := hreaches.trail (by rw [heq]; simp)
    exact moved_twice (heq ▸ htrail)
  · obtain ⟨r, r', hr', htrail⟩ := hreaches.trail (by rw [heq]; simp)
    obtain ⟨hnil, hstate, howner⟩ := moved_terminal (heq ▸ htrail) hu
    exact ⟨hnil, r', hr', hstate, howner⟩

/-- A lease that its owner renews with an earlier expiry, and that another owner then takes. -/
def shortened : List StoreCall :=
  [.apply [.createRun (runValue queuedRun)],
   .claimRun "run-1" "worker-a" 1000 1000,
   .heartbeatRun "run-1" "worker-a" 1100 100,
   .claimRun "run-1" "worker-b" 1300 100]

/-- A run that is started, goes back to the queue and is started again. -/
def restarted : List StoreCall :=
  let move source target nowMs : StateMutation :=
    .transitionRun "run-1" source target .undefined .undefined .undefined (.number nowMs)
  [.apply [.createRun (runValue queuedRun)],
   .apply [move .queued .starting 1000],
   .apply [move .starting .queued 2000, move .queued .starting 2000]]

theorem nondecreasing_shortened : Nondecreasing "run-1" shortened := by
  unfold Nondecreasing
  decide +kernel

theorem history_shortened :
    history (fun _ => true) "run-1" .empty shortened =
      [.leased "worker-a" 1000 1000, .leased "worker-a" 1100 100, .leased "worker-b" 1300 100] := by
  decide +kernel

/-- Here `worker-b` waits until the renewed lease has expired. -/
theorem lease_history_shortened : ¬ (1300 : Number) < 1100 + 100 :=
  (lease_history (fun _ => true) "run-1" .empty shortened nondecreasing_shortened).1
    [.leased "worker-a" 1000 1000] "worker-a" 1100 100 [] "worker-b" 1300 100 [] history_shortened
    (by decide) (by simp)

/-- A lease may end before the expiry that an earlier call asked for, and two transitions from one state
may both go through. -/
theorem lease_not_exclusive :
    ¬ (∀ calls, Nondecreasing "run-1" calls → ∀ l₁ a x d l₂ b y e l₃,
      history (fun _ => true) "run-1" .empty calls = l₁ ++ .leased a x d :: (l₂ ++ .leased b y e :: l₃) →
      b ≠ a → ¬ y < x + d) ∧
    ¬ (∀ calls, Nondecreasing "run-1" calls → ∀ l₁ s u l₂ v l₃,
      history (fun _ => true) "run-1" .empty calls ≠ l₁ ++ .moved s u :: (l₂ ++ .moved s v :: l₃)) := by
  constructor
  · intro h
    exact h shortened nondecreasing_shortened [] "worker-a" 1000 1000 [.leased "worker-a" 1100 100]
      "worker-b" 1300 100 [] history_shortened (by decide) (by decide)
  · intro h
    exact h restarted List.Pairwise.nil [] .queued .starting
      [.moved .starting .queued] .starting [] (by decide +kernel)

end Exclusion

end PrReviewer.State
