import PrReviewer.Governor.Once

/-!
# Slots are handed over

A slot is handed to a waiter in the pump only, when a task settles. The loop of the pump takes expired
waiters out of the array over which it iterates, and the waiter behind each of them moves under the
index and is not looked at. So the loop looks at the waiters at the places 0, 2, 4, … as long as they
have expired. If all of these have, it finds no candidate and stops, and the waiters between them stay
in the queue beside a free slot.

- `served_settle`: a settlement keeps the slots in use (`Served`) exactly when it does not find such a
  queue (`Overlooks`); every other event keeps them in use (`served_step`).
-/

open Js List

namespace PrReviewer.Governor.RunInferenceGovernor

variable {g : RunInferenceGovernor} {c : Nat} {w : Nat}

/-- A request waits only while every slot is in use. -/
def Served (g : RunInferenceGovernor) : Prop :=
  g.queue ≠ [] → g.active = g.maxConcurrent ∧ g.active ≠ 0

/-- The queue has two waiters or more, and each one at an even place has expired by the time at which
the loop of the pump looks at it: looking at an expired waiter and recording it reads the clock twice. -/
def Overlooks (g : RunInferenceGovernor) : Prop :=
  2 ≤ g.queue.length ∧
    ∀ i (h : i < g.queue.length), i % 2 = 0 → g.expired (g.reads + i) g.queue[i] = true

instance (g : RunInferenceGovernor) : Decidable g.Overlooks :=
  inferInstanceAs (Decidable (_ ∧ _))

/-- An event that is not a settlement, or a settlement whose pump does not overlook a waiter. -/
def HandsOver (g : RunInferenceGovernor) : Event → Prop
  | .settled id => id ∈ g.running → ¬ g.Overlooks
  | _ => True

instance (g : RunInferenceGovernor) : ∀ e, Decidable (g.HandsOver e)
  | .settled id => inferInstanceAs (Decidable (id ∈ g.running → ¬ g.Overlooks))
  | .admitRequest _ | .abort _ | .timer _ | .drain => inferInstanceAs (Decidable True)

/-! ## The loop -/

/-- Every waiter at an even place of `ws` has expired; the clock has been read `n` times before. -/
def AllExpired (g : RunInferenceGovernor) : Nat → List Nat → Prop
  | _, [] => True
  | n, [w] => g.expired n w = true
  | n, w :: _ :: ws => g.expired n w = true ∧ AllExpired g (n + 2) ws

/-- The waiters at the odd places. -/
def overlooked : List Nat → List Nat
  | [] | [_] => []
  | _ :: v :: ws => v :: overlooked ws

variable {ws : List Nat} {g' : RunInferenceGovernor} {n : Nat}

theorem overlooked_eq_nil : overlooked ws = [] ↔ ws.length < 2 := by
  match ws with
  | [] | [_] => simp [overlooked]
  | _ :: _ :: _ => simp [overlooked]

theorem allExpired_iff {n : Nat} {ws : List Nat} : g.AllExpired n ws ↔
    ∀ i (h : i < ws.length), i % 2 = 0 → g.expired (n + i) ws[i] = true := by
  match ws with
  | [] => simp [AllExpired]
  | [w] =>
    constructor
    · intro h i hi _
      obtain rfl : i = 0 := by simpa using hi
      exact h
    · intro h
      exact h 0 (by simp) rfl
  | w :: v :: ws =>
    rw [AllExpired, allExpired_iff]
    constructor
    · rintro ⟨hw, hws⟩ i hi heven
      match i with
      | 0 => exact hw
      | 1 => exact absurd heven (by decide)
      | i + 2 =>
        have := hws i (by simpa using hi) (by omega)
        rw [show n + (i + 2) = n + 2 + i by omega]
        simpa using this
    · intro h
      refine ⟨h 0 (by simp) rfl, fun i hi heven => ?_⟩
      have := h (i + 2) (by simpa using hi) (by omega)
      rw [show n + (i + 2) = n + 2 + i by omega] at this
      simpa using this

theorem allExpired_congr (h : ∀ n w, g'.expired n w = g.expired n w)
    (n : Nat) (ws : List Nat) : g'.AllExpired n ws ↔ g.AllExpired n ws := by
  rw [allExpired_iff, allExpired_iff]
  simp only [h]

/-- Once the loop has a candidate it ends with one. -/
theorem scan_some (n i b : Nat) (g : RunInferenceGovernor) :
    ∃ w, (scan n i (some b) g).1 = some w := by
  induction n generalizing i b g with
  | zero => exact ⟨b, rfl⟩
  | succ n ih =>
    rw [scan]
    split
    · exact ⟨b, rfl⟩
    · split
      · exact ih _ _ _
      · split
        · exact ih _ _ _
        · split <;> exact ih _ _ _

/-- An expired waiter at the index is cancelled: the rest of the queue moves under the index, the clock
has been read twice, and nothing is different for the other waiters. -/
theorem expired_turn (h : g.Sound c none) {pre rest : List Nat} (hq : g.queue = pre ++ w :: rest)
    (hw : g.expired g.reads w = true) (n : Nat) (best : Option Nat) :
    ∃ g', scan (n + 1) pre.length best g = scan n (pre.length + 1) best g' ∧ g'.Sound c none ∧
      SameSlots g g' ∧ g'.queue = pre ++ rest ∧ g'.reads = g.reads + 2 ∧
      (∀ k v, g'.expired k v = g.expired k v) ∧
      ∀ v, { g'.waiters v with removed := true } = { g.waiters v with removed := true } := by
  have hi : g.queue[pre.length]? = some w := by rw [hq]; simp
  have hremoved : (g.waiters w).removed = false := (h.queued w).mp (mem_of_getElem? hi)
  have hcheck : g.afterCheck w = g.tick := by
    unfold expired at hw
    unfold afterCheck
    split at hw
    · next d hd => rw [hd]; rfl
    · cases hw
  have hnot : w ∉ pre := by
    have hnodup := h.nodup
    rw [hq, nodup_append] at hnodup
    exact fun hm => hnodup.2.2 w hm w mem_cons_self rfl
  refine ⟨g.tick.cancel w .deadline, ?_, sound_cancel (sound_tick h) w .deadline,
    (cancel_slots g.tick w .deadline).1, ?_⟩
  · rw [scan, hi]
    simp only [hremoved, Bool.false_eq_true, if_false, hw, if_true, hcheck]
  · obtain ⟨ts, ls, r, -, heq⟩ := cancel_eq (g := g.tick) hremoved .deadline
    rw [heq]
    refine ⟨?_, rfl, fun k v => ?_, fun v => ?_⟩
    · show g.queue.erase w = pre ++ rest
      rw [hq, erase_append_right _ hnot, erase_cons_head]
    all_goals
      by_cases hv : v = w
      · subst hv
        simp [expired, tick]
      · simp [expired, tick, hv]

/-- The candidate after one more waiter that has not expired. -/
def pick (g : RunInferenceGovernor) (best : Option Nat) (w : Nat) : Option Nat :=
  if g.better w best then some w else best

/-- A waiter at the index that has not expired is compared with the candidate. -/
theorem candidate_turn (h : g.Sound c none) {pre rest : List Nat} (hq : g.queue = pre ++ w :: rest)
    (hw : g.expired g.reads w = false) (n : Nat) (best : Option Nat) :
    scan (n + 1) pre.length best g = scan n (pre.length + 1) (g.pick best w) (g.afterCheck w) := by
  have hi : g.queue[pre.length]? = some w := by rw [hq]; simp
  have hremoved : (g.waiters w).removed = false := (h.queued w).mp (mem_of_getElem? hi)
  rw [scan, hi]
  simp only [hremoved, hw, Bool.false_eq_true, if_false, pick]

theorem scan_end (n : Nat) {i : Nat} (best : Option Nat) (h : g.queue.length ≤ i) :
    scan n i best g = (best, g) := by
  have hi : g.queue[i]? = none := List.getElem?_eq_none h
  cases n with
  | zero => rfl
  | succ n => rw [scan, hi]

theorem exists_turn (h : (w :: ws).length ≤ n) : ∃ k, n = k + 1 :=
  Nat.exists_eq_add_of_le' (Nat.le_trans (Nat.succ_le_succ (Nat.zero_le _)) h)

/-- If all the waiters at even places from the index on have expired, the loop finds no candidate and
leaves the ones at odd places. -/
theorem scan_overlooks (pre : List Nat) {rest : List Nat} (h : g.Sound c none)
    (hq : g.queue = pre ++ rest) (hn : rest.length ≤ n) (hall : g.AllExpired g.reads rest) :
    ∃ g', scan n pre.length none g = (none, g') ∧ SameSlots g g' ∧
      g'.queue = pre ++ overlooked rest := by
  induction rest using overlooked.induct generalizing g pre n with
  | case1 => exact ⟨g, scan_end n none (by simp [hq]), ⟨rfl, rfl⟩, hq⟩
  | case2 w =>
    obtain ⟨n, rfl⟩ := exists_turn hn
    obtain ⟨g', heq, -, hslots, hq', -⟩ := expired_turn h hq hall n none
    refine ⟨g', ?_, hslots, hq'⟩
    rw [heq, scan_end n none (by simp [hq'])]
  | case3 w v ws ih =>
    obtain ⟨n, rfl⟩ := exists_turn hn
    obtain ⟨hw, hws⟩ := hall
    obtain ⟨g₁, heq, hsound, hslots, hq₁, hreads, hsame, -⟩ := expired_turn h hq hw n none
    have hq₁' : g₁.queue = (pre ++ [v]) ++ ws := by rw [hq₁]; simp
    have hws₁ : g₁.AllExpired g₁.reads ws := by
      rw [hreads, allExpired_congr hsame]
      exact hws
    have hlen : ws.length ≤ n := by
      simp only [length_cons] at hn
      omega
    obtain ⟨g', heq', hslots', hq'⟩ := ih _ hsound hq₁' hlen hws₁
    refine ⟨g', ?_, ⟨hslots'.1.trans hslots.1, hslots'.2.trans hslots.2⟩, ?_⟩
    · rw [heq, ← heq', length_append]
      rfl
    · rw [hq', overlooked]
      simp

/-- If a waiter at an even place from the index on has not expired, the loop finds a candidate. -/
theorem scan_sees (pre : List Nat) {rest : List Nat} (h : g.Sound c none) (hq : g.queue = pre ++ rest)
    (hn : rest.length ≤ n) (hall : ¬ g.AllExpired g.reads rest) :
    ∃ w, (scan n pre.length none g).1 = some w := by
  induction rest using overlooked.induct generalizing g pre n with
  | case1 => exact absurd trivial hall
  | case2 w =>
    obtain ⟨n, rfl⟩ := exists_turn hn
    rw [candidate_turn h hq (by simpa [AllExpired] using hall)]
    exact scan_some _ _ _ _
  | case3 w v ws ih =>
    obtain ⟨n, rfl⟩ := exists_turn hn
    cases hw : g.expired g.reads w with
    | false =>
      rw [candidate_turn h hq hw]
      exact scan_some _ _ _ _
    | true =>
      obtain ⟨g₁, heq, hsound, -, hq₁, hreads, hsame, -⟩ := expired_turn h hq hw n none
      have hq₁' : g₁.queue = (pre ++ [v]) ++ ws := by rw [hq₁]; simp
      have hws₁ : ¬ g₁.AllExpired g₁.reads ws := by
        rw [hreads, allExpired_congr hsame]
        exact fun hws => hall ⟨hw, hws⟩
      have hlen : ws.length ≤ n := by
        simp only [length_cons] at hn
        omega
      have hsees := ih _ hsound hq₁' hlen hws₁
      rw [heq]
      simpa using hsees

/-! ## Settlements -/

theorem overlooks_iff : g.Overlooks ↔ ¬ g.queue.length < 2 ∧ g.AllExpired g.reads g.queue := by
  rw [Overlooks, allExpired_iff, Nat.not_lt]

theorem select_slots (g : RunInferenceGovernor) (w : Nat) :
    (g.select w).active = g.active + 1 ∧ (g.select w).maxConcurrent = g.maxConcurrent := by
  obtain ⟨ts, ls, heq⟩ := g.leave_eq w
  unfold select
  dsimp only
  rw [heq]
  exact ⟨rfl, rfl⟩

/-- The pump with every slot in use. -/
theorem pump_full (n : Nat) (h : g.active = g.maxConcurrent) : pump n g = g := by
  cases n with
  | zero => rfl
  | succ n =>
    rw [pump, if_neg]
    rintro ⟨-, hlt⟩
    omega

/-- The pump with one free slot fills it, unless it overlooks a waiter. -/
theorem served_pump (h : g.Sound c none) (hfree : g.active + 1 = g.maxConcurrent) :
    (pump g.queue.length g).Served ↔ ¬ g.Overlooks := by
  rw [overlooks_iff]
  cases hq : g.queue with
  | nil =>
    have hpump : pump 0 g = g := rfl
    simp [hpump, Served, hq]
  | cons w ws =>
    have hgo : g.queue ≠ [] ∧ g.active < g.maxConcurrent := ⟨by simp [hq], by omega⟩
    have hlen : (w :: ws).length ≤ g.queue.length := by rw [hq]
    rw [length_cons, pump, if_pos hgo]
    by_cases hall : g.AllExpired g.reads (w :: ws)
    · obtain ⟨g', heq, hslots, hq'⟩ := scan_overlooks [] h hq hlen hall
      have hscan : scan g.queue.length 0 none g = (none, g') := heq
      rw [hscan]
      dsimp only
      have hactive : g'.active ≠ g'.maxConcurrent := by
        rw [hslots.1, hslots.2]
        omega
      rw [Served, hq', nil_append, Ne, overlooked_eq_nil]
      simp [hall, hactive]
    · obtain ⟨v, hv⟩ := scan_sees [] h hq hlen hall
      have hslots := (sound_scan g.queue.length 0 none h (by simp)).2.1
      have hscan : scan g.queue.length 0 none g = (some v, (scan g.queue.length 0 none g).2) :=
        Prod.ext hv rfl
      rw [hscan]
      dsimp only
      obtain ⟨hactive, hmax⟩ := select_slots (scan g.queue.length 0 none g).2 v
      have hfull : ((scan g.queue.length 0 none g).2.select v).active =
          ((scan g.queue.length 0 none g).2.select v).maxConcurrent := by
        rw [hactive, hmax, hslots.1, hslots.2]
        exact hfree
      rw [pump_full _ hfull]
      refine iff_of_true (fun _ => ⟨hfull, ?_⟩) fun hover => hall hover.2
      omega

theorem served_settle (h : g.Sound c none) (hserved : g.Served) {id : Nat} (hid : id ∈ g.running) :
    (g.settle id).Served ↔ ¬ g.Overlooks := by
  have hrelease := sound_release h hid
  unfold settle
  dsimp only
  by_cases hq : g.queue = []
  · -- nobody waits, so nobody is overlooked
    rw [hq]
    exact iff_of_true (fun hne => absurd rfl hne) fun hover => absurd hover.1 (by simp [hq])
  · have hactive := (hserved hq).1
    have hpos : 0 < g.active := by
      rw [h.active]
      exact length_pos_of_mem hid
    have hfree : g.active - 1 + 1 = g.maxConcurrent := by omega
    exact served_pump hrelease hfree

/-! ## Other events -/

theorem served_of_slots (hslots : SameSlots g g')
    (hlen : g'.queue.length ≤ g.queue.length) (h : g.Served) : g'.Served := by
  intro hne
  rw [hslots.1, hslots.2]
  refine h fun hnil => hne (eq_nil_of_length_eq_zero ?_)
  rw [hnil] at hlen
  exact Nat.le_zero.mp hlen

theorem served_cancel (h : g.Served) (w : Nat) (reason : CancelReason) :
    (g.cancel w reason).Served :=
  served_of_slots (cancel_slots g w reason).1 (cancel_slots g w reason).2 h

theorem served_abort (h : g.Served) (signal : Nat) : (g.abort signal).Served := by
  unfold abort
  dsimp only
  split
  · exact h
  · have hstart : Served { g with aborted := signal :: g.aborted } := h
    generalize ((g.listeners.filter fun l => l.1 = signal).map Prod.snd) = called
    generalize ({ g with aborted := signal :: g.aborted } : RunInferenceGovernor) = x at hstart ⊢
    induction called generalizing x with
    | nil => exact hstart
    | cons w called ih => exact ih _ (served_cancel (g := x.removeEventListener signal w) hstart w .cancelled)

theorem served_fire (h : g.Served) (w : Nat) : (g.fire w).Served := by
  unfold fire
  split
  · exact served_cancel (g := g.clearTimeout w) h w .deadline
  · exact h

/-- A request queues only while every slot is in use, and a request that starts at once finds the queue
empty. -/
theorem served_admitRequest (h : g.Sound c none) (hserved : g.Served) (request : GovernedRequest) :
    (g.admitRequest request).Served := by
  unfold admitRequest
  dsimp only
  split
  · exact hserved
  · split
    · exact hserved
    · next hlive =>
      split
      · next hlt =>
        intro hq
        exact absurd (hserved hq).1 (Nat.ne_of_lt hlt)
      · next hfull =>
        have hactive : g.active = g.maxConcurrent := Nat.le_antisymm h.bound (Nat.not_lt.mp hfull)
        have hpos : 0 < g.maxConcurrent := h.cap ▸ h.positive
        obtain ⟨ts, ls, heq⟩ := enqueue_eq { g with requests := g.requests + 1 } g.requests request
          (by simpa using hlive)
        rw [heq]
        intro _
        exact ⟨hactive, show g.active ≠ 0 by omega⟩

/-- A step from a served state ends in one exactly when it overlooks no waiter. -/
theorem served_step (h : g.Sound c none) (hserved : g.Served) (e : Event) :
    (step g e).Served ↔ g.HandsOver e := by
  cases e with
  | admitRequest request => exact iff_of_true (served_admitRequest h hserved request) trivial
  | settled id =>
    unfold step HandsOver
    dsimp only
    split
    · next hid =>
      rw [served_settle h hserved hid]
      simp [hid]
    · next hid => exact iff_of_true hserved fun hid' => absurd hid' hid
  | abort signal => exact iff_of_true (served_abort hserved signal) trivial
  | timer w => exact iff_of_true (served_fire hserved w) trivial
  | drain => exact iff_of_true hserved trivial

/-! ## Runs -/

/-- In a run of an enabled governor no request ever waits beside a free slot exactly when no settlement
finds a queue whose waiters at even places have all expired and that has a waiter besides. -/
theorem served_iff {maxConcurrent : Number} {clock : Nat → Number}
    (h : (new maxConcurrent clock).enabled = true) (es : List Event) :
    (∀ n, (Machine.run step (new maxConcurrent clock) (es.take n)).Served) ↔
      Machine.Along step HandsOver (new maxConcurrent clock) es :=
  Machine.along_iff (I := Served) (J := Sound maxConcurrent.toNat none)
    (fun _ e hg => sound_step hg e) (fun _ e hg hs => served_step hg hs e) (sound_new h)
    (fun hne => absurd rfl hne) es

/-- The clock of the runs below: 0 when the requests queue, 10 from then on. -/
def tenLater (n : Nat) : Number := if n < 2 then 0 else 10

/-- One slot, one waiter whose deadline passes, and one without a deadline: the first settlement
strands the second waiter. -/
def strandingRun : List Event :=
  [.admitRequest ⟨.authoritative, "e", none, none⟩, .admitRequest ⟨.advisory, "e", none, some 5⟩,
    .admitRequest ⟨.advisory, "e", none, none⟩, .settled 0]

/-- Two waiters; the second has expired when the first settlement hands the slot to the first one. -/
def handingRun : List Event :=
  [.admitRequest ⟨.authoritative, "e", none, none⟩, .admitRequest ⟨.advisory, "e", none, none⟩,
    .admitRequest ⟨.advisory, "e", none, some 5⟩, .settled 0, .settled 1]

theorem served_iff_handed :
    Machine.Along step HandsOver (new 1 tenLater) handingRun ∧
      ∀ n, (Machine.run step (new 1 tenLater) (handingRun.take n)).Served := by
  have hhanded : Machine.Along step HandsOver (new 1 tenLater) handingRun := by decide +kernel
  exact ⟨hhanded, (served_iff (by decide +kernel) handingRun).mpr hhanded⟩

theorem strands :
    ¬ ∀ (maxConcurrent : Number) (clock : Nat → Number) (es : List Event),
      (new maxConcurrent clock).enabled = true →
        (Machine.run step (new maxConcurrent clock) es).Served := by
  intro h
  have hactive : (Machine.run step (new 1 tenLater) strandingRun).active = 0 := by decide +kernel
  have hqueue : (Machine.run step (new 1 tenLater) strandingRun).queue = [2] := by decide +kernel
  have hserved := h 1 tenLater strandingRun (by decide +kernel)
  exact (hserved (by simp [hqueue])).2 hactive

end PrReviewer.Governor.RunInferenceGovernor
