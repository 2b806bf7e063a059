import PrReviewer.Governor.Strand

/-!
# The order in which slots are handed over

The pump hands a slot to the waiter with the smallest priority and sequence number among those that its
loop looks at. The waiter behind an expired one is not looked at (see `Strand`), so it can be overtaken
by a lower class, or by a later arrival of its own class.
-/

open Js List

namespace PrReviewer.Governor.RunInferenceGovernor

variable {g : RunInferenceGovernor} {c : Nat} {w : Nat}

/-! ## Turns of the pump -/

/-- The place of a waiter: its class, then its arrival. -/
def place (g : RunInferenceGovernor) (w : Nat) : Nat ×ₗ Nat :=
  toLex ((g.waiters w).priority.rank, (g.waiters w).seq)

/-- If the turn hands the slot to a waiter, no other waiter that is in the queue then, is not removed and
has not expired then has a smaller place. -/
def InOrder (g : RunInferenceGovernor) : Prop :=
  match g.scan g.queue.length 0 none with
  | (none, _) => True
  | (some w, g) => ∀ v ∈ g.queue, (g.waiters v).removed = false → g.expired g.reads v = false →
      g.place w ≤ g.place v

/-- The states in which the pump looks for a waiter. -/
def turns : Nat → RunInferenceGovernor → List RunInferenceGovernor
  | 0, _ => []
  | n + 1, g =>
    if g.queue ≠ [] ∧ g.active < g.maxConcurrent then
      match g.scan g.queue.length 0 none with
      | (none, _) => [g]
      | (some w, g') => g :: turns n (g'.select w)
    else []

/-- One turn: the waiter that is found, if any, gets the slot. -/
def turn (g : RunInferenceGovernor) : RunInferenceGovernor :=
  match g.scan g.queue.length 0 none with
  | (none, g) => g
  | (some w, g) => g.select w

/-- The pump is its turns. -/
theorem pump_eq_turns (n : Nat) (g : RunInferenceGovernor) :
    pump n g = ((turns n g).getLast?.map turn).getD g := by
  induction n generalizing g with
  | zero => rfl
  | succ n ih =>
    rw [pump, turns]
    split
    · rcases hscan : g.scan g.queue.length 0 none with ⟨_ | w, g'⟩
      · simp [turn, hscan]
      · dsimp only
        rw [ih, List.getLast?_cons]
        cases (turns n (g'.select w)).getLast? with
        | none => simp [turn, hscan]
        | some t => rfl
    · rfl

/-- The turns that the event brings about. -/
def turnsOf (g : RunInferenceGovernor) : Event → List RunInferenceGovernor
  | .settled id =>
    if id ∈ g.running then
      let g := { g with
        running := g.running.erase id, log := g.log ++ [.settled id], active := g.active - 1 }
      turns g.queue.length g
    else []
  | _ => []

/-- Every slot that the event frees is handed over in order. -/
def HandsInOrder (g : RunInferenceGovernor) (e : Event) : Prop := ∀ t ∈ g.turnsOf e, t.InOrder

/-! ## What the loop looks at -/

/-- `found`: the waiters that the loop looks at and that have not expired. `passed`: the waiters that it
does not look at. `reads`: the readings of the clock that have been made at its end. -/
structure Sight where
  found : List Nat
  passed : List Nat
  reads : Nat

/-- A waiter with a deadline is looked at with one reading of the clock, and one that has expired is
recorded with another. The waiter behind an expired one is passed over. -/
def sight (g : RunInferenceGovernor) : Nat → List Nat → Sight
  | n, [] => ⟨[], [], n⟩
  | n, w :: ws =>
    if g.expired n w then
      match ws with
      | [] => ⟨[], [], n + 2⟩
      | v :: ws => { g.sight (n + 2) ws with passed := v :: (g.sight (n + 2) ws).passed }
    else
      let n := if (g.waiters w).request.deadlineMs.isSome then n + 1 else n
      { g.sight n ws with found := w :: (g.sight n ws).found }

variable {n : Nat} {ws : List Nat} {g' : RunInferenceGovernor}

theorem sight_expired {v : Nat} (hw : g.expired n w = true) :
    g.sight n (w :: v :: ws) =
      { g.sight (n + 2) ws with passed := v :: (g.sight (n + 2) ws).passed } := by
  rw [sight, if_pos hw]

theorem sight_live {r : Nat} (hw : g.expired n w = false)
    (hr : r = if (g.waiters w).request.deadlineMs.isSome then n + 1 else n) :
    g.sight n (w :: ws) = { g.sight r ws with found := w :: (g.sight r ws).found } := by
  rw [sight.eq_def, hr]
  simp only [hw, Bool.false_eq_true, if_false]

/-- The loop finds a waiter and passes over one that comes before everything it finds and that has not
expired at its end. -/
def PassesOver (g : RunInferenceGovernor) : Prop :=
  (g.sight g.reads g.queue).found ≠ [] ∧
    ∃ v ∈ (g.sight g.reads g.queue).passed, g.expired (g.sight g.reads g.queue).reads v = false ∧
      ∀ w ∈ (g.sight g.reads g.queue).found, g.place v < g.place w

instance (g : RunInferenceGovernor) : Decidable g.PassesOver :=
  inferInstanceAs (Decidable (_ ∧ ∃ v ∈ _, _ ∧ ∀ w ∈ _, _))

/-- No turn of the event passes over a waiter that comes first. -/
def PassesNone (g : RunInferenceGovernor) (e : Event) : Prop :=
  ∀ t ∈ g.turnsOf e, ¬ PassesOver t

instance (g : RunInferenceGovernor) (e : Event) : Decidable (g.PassesNone e) :=
  inferInstanceAs (Decidable (∀ t ∈ g.turnsOf e, ¬ PassesOver t))

/-! ## The loop -/

theorem rank_injective {p q : GovernorPriority} (h : p.rank = q.rank) : p = q := by
  cases p <;> cases q <;> first | rfl | cases h

theorem better_iff {w b : Nat} : g.better w (some b) = true ↔ g.place w < g.place b := by
  rw [place, place, Prod.Lex.toLex_lt_toLex, better, Bool.or_eq_true, Bool.and_eq_true,
    decide_eq_true_eq, decide_eq_true_eq, decide_eq_true_eq]
  exact or_congr Iff.rfl
    (and_congr_left' ⟨congrArg GovernorPriority.rank, rank_injective⟩)

/-- The candidate after the waiters `ws` is one of them or the one before, and none of them comes before
it. -/
theorem pick_spec (best : Option Nat) (ws : List Nat) :
    match ws.foldl g.pick best with
    | none => best = none ∧ ws = []
    | some w => (best = some w ∨ w ∈ ws) ∧ (∀ b, best = some b → g.place w ≤ g.place b) ∧
        ∀ v ∈ ws, g.place w ≤ g.place v := by
  induction ws generalizing best with
  | nil => cases best <;> simp
  | cons v ws ih =>
    rw [foldl_cons]
    have hrest := ih (g.pick best v)
    -- the candidate after `v` is there and comes no later than `v` and than the one before
    obtain ⟨b, hb, hmem, hv, hbest⟩ : ∃ b, g.pick best v = some b ∧ (best = some b ∨ b = v) ∧
        g.place b ≤ g.place v ∧ ∀ b', best = some b' → g.place b ≤ g.place b' := by
      cases best with
      | none => exact ⟨v, rfl, Or.inr rfl, le_refl _, fun _ h => nomatch h⟩
      | some b =>
        rw [pick]
        split
        · next hlt =>
          refine ⟨v, rfl, Or.inr rfl, le_refl _, ?_⟩
          rintro _ ⟨⟩
          exact le_of_lt (better_iff.mp hlt)
        · next hge =>
          refine ⟨b, rfl, Or.inl rfl, not_lt.mp fun h => hge (better_iff.mpr h), ?_⟩
          rintro _ ⟨⟩
          exact le_refl _
    rw [hb] at hrest ⊢
    cases hfold : ws.foldl g.pick (some b) with
    | none => simp [hfold] at hrest
    | some w =>
      rw [hfold] at hrest
      obtain ⟨hw, hle, hall⟩ := hrest
      refine ⟨?_, fun b' hb' => (hle b rfl).trans (hbest b' hb'), ?_⟩
      · rcases hw with hw | hw
        · obtain rfl := Option.some.inj hw
          exact hmem.imp id fun heq => by simp [heq]
        · exact Or.inr (mem_cons_of_mem v hw)
      · intro x hx
        rcases mem_cons.mp hx with rfl | hx
        · exact (hle b rfl).trans hv
        · exact hall x hx

/-- Two governors whose waiters differ in the flag `removed` only, and whose clocks show the same. -/
structure SameWaiters (g g' : RunInferenceGovernor) : Prop where
  expired (k v : Nat) : g'.expired k v = g.expired k v
  waiters (v : Nat) : { g'.waiters v with removed := true } = { g.waiters v with removed := true }

theorem SameWaiters.deadline (h : SameWaiters g g') (v : Nat) :
    (g'.waiters v).request = (g.waiters v).request :=
  (Waiter.mk.inj (h.waiters v)).2.2.2.1

theorem SameWaiters.place (h : SameWaiters g g') (v : Nat) :
    g'.place v = g.place v := by
  obtain ⟨hseq, -, hpriority, -⟩ := Waiter.mk.inj (h.waiters v)
  rw [RunInferenceGovernor.place, RunInferenceGovernor.place, hpriority, hseq]

theorem SameWaiters.pick (h : SameWaiters g g') : g'.pick = g.pick := by
  funext best w
  rw [RunInferenceGovernor.pick, RunInferenceGovernor.pick]
  cases best with
  | none => rfl
  | some b =>
    have hb : g'.better w (some b) = g.better w (some b) := by
      rw [Bool.eq_iff_iff, better_iff, better_iff, h.place, h.place]
    rw [hb]

theorem SameWaiters.sight (h : SameWaiters g g') (n : Nat)
    (ws : List Nat) : g'.sight n ws = g.sight n ws := by
  fun_induction RunInferenceGovernor.sight g n ws with
  | case1 n => simp only [RunInferenceGovernor.sight]
  | case2 n w hw => simp only [RunInferenceGovernor.sight, h.expired, hw, if_true]
  | case3 n w hw v ws _ ih => rw [sight_expired ((h.expired n w).trans hw), ih]
  | case4 n w ws hw n' _ ih =>
    have hn : n' = if (g'.waiters w).request.deadlineMs.isSome then n + 1 else n := by
      rw [h.deadline]
    rw [sight_live ((h.expired n w).trans (Bool.eq_false_iff.mpr hw)) hn, ih]

/-- The loop returns the first in place of the waiters that it finds. It leaves the ones before the index,
the ones that it finds and the ones that it passes over. -/
theorem scan_spec (n : Nat) (pre : List Nat) {rest : List Nat} (best : Option Nat)
    (h : g.Sound c none) (hq : g.queue = pre ++ rest) (hn : rest.length ≤ n) :
    ∃ g', scan n pre.length best g = ((g.sight g.reads rest).found.foldl g.pick best, g') ∧
      g'.Sound c none ∧ SameWaiters g g' ∧ g'.reads = (g.sight g.reads rest).reads ∧
      ∀ v, v ∈ g'.queue ↔
        v ∈ pre ∨ v ∈ (g.sight g.reads rest).found ∨ v ∈ (g.sight g.reads rest).passed := by
  induction n generalizing g pre rest best with
  | zero =>
    obtain rfl := eq_nil_of_length_eq_zero (Nat.le_zero.mp hn)
    refine ⟨g, rfl, h, ⟨fun _ _ => rfl, fun _ => rfl⟩, rfl, fun v => ?_⟩
    simp [hq, sight]
  | succ n ih =>
    match rest with
    | [] =>
      refine ⟨g, scan_end _ best (by simp [hq]), h, ⟨fun _ _ => rfl, fun _ => rfl⟩, rfl, fun v => ?_⟩
      simp [hq, sight]
    | w :: ws =>
      cases hw : g.expired g.reads w with
      | true =>
        obtain ⟨g₁, heq, hsound, -, hq₁, hreads, hsame⟩ := expired_turn h hq hw n best
        have hsame : SameWaiters g g₁ := ⟨hsame.1, hsame.2⟩
        match ws with
        | [] =>
          refine ⟨g₁, ?_, hsound, hsame, by simp [sight, hw, hreads], fun v => ?_⟩
          · rw [heq, scan_end n best (by simp [hq₁])]
            simp [sight, hw]
          · simp [hq₁, sight, hw]
        | v :: ws =>
          have hq₁' : g₁.queue = (pre ++ [v]) ++ ws := by rw [hq₁]; simp
          have hlen : ws.length ≤ n := by
            simp only [length_cons] at hn
            omega
          obtain ⟨g', heq', hsound', hsame', hreads', hqueue'⟩ := ih (pre ++ [v]) best hsound hq₁' hlen
          rw [hsame.sight, hreads] at heq' hreads' hqueue'
          rw [sight_expired hw]
          refine ⟨g', ?_, hsound', ⟨fun k x => (hsame'.expired k x).trans (hsame.expired k x),
            fun x => (hsame'.waiters x).trans (hsame.waiters x)⟩, hreads', fun x => ?_⟩
          · rw [hsame.pick, length_append] at heq'
            rw [heq]
            exact heq'
          · rw [hqueue' x]
            simp only [mem_append, mem_cons, not_mem_nil, or_false]
            tauto
      | false =>
        have hq₁ : (g.afterCheck w).queue = (pre ++ [w]) ++ ws := by
          obtain ⟨k, hcheck⟩ := g.afterCheck_eq w
          rw [hcheck]
          simp [hq]
        have hlen : ws.length ≤ n := by
          simp only [length_cons] at hn
          omega
        have hsame : SameWaiters g (g.afterCheck w) := by
          obtain ⟨k, hcheck⟩ := g.afterCheck_eq w
          rw [hcheck]
          exact ⟨fun _ _ => rfl, fun _ => rfl⟩
        have hreads : (g.afterCheck w).reads =
            if (g.waiters w).request.deadlineMs.isSome then g.reads + 1 else g.reads := by
          rw [afterCheck]
          split <;> rfl
        obtain ⟨g', heq', hsound', hsame', hreads', hqueue'⟩ :=
          ih (pre ++ [w]) (g.pick best w) (sound_afterCheck h w) hq₁ hlen
        rw [hsame.sight, hreads] at heq' hreads' hqueue'
        rw [sight_live hw rfl]
        refine ⟨g', ?_, hsound', ⟨fun k x => (hsame'.expired k x).trans (hsame.expired k x),
          fun x => (hsame'.waiters x).trans (hsame.waiters x)⟩, hreads', fun x => ?_⟩
        · rw [hsame.pick, length_append] at heq'
          rw [candidate_turn h hq hw, foldl_cons]
          exact heq'
        · rw [hqueue' x]
          simp only [mem_append, mem_cons, not_mem_nil, or_false]
          tauto

/-! ## Turns and runs -/

/-- A turn hands the slot over in order exactly when it passes over no waiter that comes before
everything it finds. -/
theorem inOrder_iff (h : g.Sound c none) : g.InOrder ↔ ¬ g.PassesOver := by
  obtain ⟨g', hscan, hsound, hsame, hreads, hqueue⟩ :=
    @scan_spec g c g.queue.length [] g.queue none h rfl (Nat.le_refl _)
  have hpick := g.pick_spec none (g.sight g.reads g.queue).found
  rw [length_nil] at hscan
  unfold InOrder PassesOver
  rw [hscan]
  cases hfold : (g.sight g.reads g.queue).found.foldl g.pick none with
  | none =>
    -- nobody is found, so nobody gets the slot
    rw [hfold] at hpick
    exact iff_of_true trivial fun hp => hp.1 hpick.2
  | some w =>
    rw [hfold] at hpick
    obtain ⟨hw, -, hfirst⟩ := hpick
    have hw : w ∈ (g.sight g.reads g.queue).found := hw.resolve_left fun h => nomatch h
    have hlive : ∀ v, g'.expired g'.reads v = g.expired (g.sight g.reads g.queue).reads v := by
      intro v
      rw [hsame.expired, hreads]
    dsimp only
    constructor
    · rintro horder ⟨-, v, hv, hexpired, hbefore⟩
      have hq : v ∈ g'.queue := (hqueue v).mpr (Or.inr (Or.inr hv))
      have hle := horder v hq ((hsound.queued v).mp hq) (by rw [hlive, hexpired])
      rw [hsame.place, hsame.place] at hle
      exact not_lt.mpr hle (hbefore w hw)
    · intro hpasses v hv _ hexpired
      rw [hsame.place, hsame.place]
      rcases (hqueue v).mp hv with hv | hv | hv
      · cases hv
      · exact hfirst v hv
      · by_contra hlt
        refine hpasses ⟨ne_nil_of_mem hw, v, hv, by rw [← hlive, hexpired], fun x hx => ?_⟩
        exact lt_of_lt_of_le (not_le.mp hlt) (hfirst x hx)

theorem sound_turns (n : Nat) (h : g.Sound c none) {t : RunInferenceGovernor}
    (ht : t ∈ turns n g) : t.Sound c none := by
  induction n generalizing g with
  | zero => cases ht
  | succ n ih =>
    rw [turns] at ht
    split at ht
    · next hgo =>
      obtain ⟨hsound, hslots, hmem⟩ := sound_scan g.queue.length 0 none h fun _ hb => nomatch hb
      rcases hscan : g.scan g.queue.length 0 none with ⟨_ | w, g'⟩
      · rw [hscan] at ht
        rw [mem_singleton.mp ht]
        exact h
      · rw [hscan] at ht hsound hslots hmem
        rcases mem_cons.mp ht with rfl | ht
        · exact h
        · refine ih (sound_select hsound (hmem w rfl) ?_) ht
          rw [hslots.1, hslots.2]
          exact hgo.2
    · cases ht

theorem handsInOrder_step (h : g.Sound c none) (e : Event) : g.HandsInOrder e ↔ g.PassesNone e := by
  cases e with
  | settled id =>
    refine forall₂_congr fun t ht => ?_
    rw [turnsOf] at ht
    split at ht
    · next hid => exact inOrder_iff (sound_turns _ (sound_release h hid) ht)
    · cases ht
  | admitRequest request => exact iff_of_true (fun _ ht => nomatch ht) fun _ ht => nomatch ht
  | abort signal => exact iff_of_true (fun _ ht => nomatch ht) fun _ ht => nomatch ht
  | timer w => exact iff_of_true (fun _ ht => nomatch ht) fun _ ht => nomatch ht
  | drain => exact iff_of_true (fun _ ht => nomatch ht) fun _ ht => nomatch ht

/-- In a run of an enabled governor every slot is handed over in order exactly when no turn of the pump
passes over a waiter that has not expired and comes before every waiter that the turn finds. -/
theorem handsInOrder_iff {maxConcurrent : Number} {clock : Nat → Number}
    (h : (new maxConcurrent clock).enabled = true) (es : List Event) :
    Machine.Along step HandsInOrder (new maxConcurrent clock) es ↔
      Machine.Along step PassesNone (new maxConcurrent clock) es :=
  Machine.along_congr (J := Sound maxConcurrent.toNat none) (fun _ e hg => sound_step hg e)
    (fun _ e hg => handsInOrder_step hg e) (sound_new h) es

/-- One slot; behind a waiter whose deadline passes stands one of a higher class, and then one of a lower
class. -/
def overtakingRun : List Event :=
  [.admitRequest ⟨.authoritative, "e", none, none⟩, .admitRequest ⟨.advisory, "e", none, some 5⟩,
    .admitRequest ⟨.requiredPrepass, "e", none, none⟩, .admitRequest ⟨.advisory, "e", none, none⟩]

/-- The clock of that run: 0 while the requests queue, 10 from then on. -/
def tenAfterThree (n : Nat) : Number := if n < 3 then 0 else 10

theorem handsInOrder_handed : Machine.Along step HandsInOrder (new 1 tenLater) handingRun :=
  (handsInOrder_iff (by decide +kernel) handingRun).mpr (by decide +kernel)

/-- The settlement hands the slot to the advisory waiter. -/
theorem overtakes :
    ¬ ∀ (maxConcurrent : Number) (clock : Nat → Number) (es : List Event) (e : Event),
      (new maxConcurrent clock).enabled = true →
        (Machine.run step (new maxConcurrent clock) es).HandsInOrder e := by
  intro h
  have henabled : (new 1 tenAfterThree).enabled = true := by decide +kernel
  have hpasses : ¬ (Machine.run step (new 1 tenAfterThree) overtakingRun).PassesNone (.settled 0) := by
    decide +kernel
  exact hpasses ((handsInOrder_step (sound_run henabled overtakingRun) _).mp
    (h 1 tenAfterThree overtakingRun (.settled 0) henabled))

end PrReviewer.Governor.RunInferenceGovernor
