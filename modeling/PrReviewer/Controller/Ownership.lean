import PrReviewer.Controller.GenerationMoves
import PrReviewer.Js.Log
import PrReviewer.Js.Order

/-!
# Who owns a generation

What the store and the calls of the ledgers keep, over every order of their steps.

- A stored claim stays at its key until the clock has reached its expiry or its controller's `remove` was called
  behind it: that is `Guarded`, and it makes the claims of one job exclusive.
-/

open Js List

namespace PrReviewer.Controller.GenerationLedger

open State

section

variable (randomUUID : Nat → String) (ttlMs : Number)

/-! ## The calls and the log -/

/-- The call behind a stored claim has left the store, and it knows so if it was told. -/
def Claimed (a : Claim) (call : Call) : Prop :=
  call.controller = a.controller ∧ call.jobId = a.jobId ∧ (∀ nowMs, call.phase ≠ .claiming nowMs) ∧
    (a.delivery = .answered → call.phase = .claimAnswered (.ok ()) ∨ call.phase = .ended (.ok true))

structure Recorded (s : System) : Prop where
  stored : ∀ a, .stored a ∈ s.log → ∃ call, s.calls[a.call]? = some call ∧ Claimed a call
  returned : ∀ i r, .returned i r ∈ s.log → ∃ call, s.calls[i]? = some call ∧ call.phase = .ended (.ok r)

/-- The store took a claim of the call. -/
def Stored (s : System) (i : Nat) : Prop := ∃ a, .stored a ∈ s.log ∧ a.call = i

structure Known (s : System) : Prop where
  bound : ∀ k r n, s.tables.idempotencyKeys.get? k = some r → r.binding = bindingOf (randomUUID n) → Stored s n
  claims : ∀ c jobId token, (s.claims c).get? jobId = some token →
    ∃ a, .stored a ∈ s.log ∧ token = randomUUID a.call ∧ a.controller = c ∧ a.jobId = jobId
  answered : ∀ (i : Nat) (call : Call), s.calls[i]? = some call →
    (call.phase = .claimAnswered (.ok ()) ∨
      ∃ e r, call.phase = .readBack e (some r) ∧ r.binding = bindingOf (randomUUID i)) → Stored s i

/-- The clock has been there. -/
def Past (s : System) (nowMs : Number) : Prop := nowMs = s.clock ∨ nowMs ≤ s.clock

/-- A release carries the token of a claim of its controller, and `remove` was called behind that claim. -/
def Releases (s : System) (token : String) : Prop :=
  (∃ a, .stored a ∈ s.log ∧ token = randomUUID a.call) ∧
    ∀ a l, .stored a :: l <:+ s.log → token = randomUUID a.call →
      .removing a.controller a.jobId ∈ l

structure Waiting (s : System) : Prop where
  claiming : ∀ (i : Nat) (call : Call) nowMs, s.calls[i]? = some call → call.phase = .claiming nowMs → Past s nowMs
  releasing : ∀ (i : Nat) (call : Call) token nowMs, s.calls[i]? = some call → call.phase = .releasing token nowMs →
    Past s nowMs ∧ Releases randomUUID s token

/-- A stored claim stands, or its time is over, or its controller's `remove` was called. -/
def Guarded (s : System) : Prop :=
  ∀ a l, .stored a :: l <:+ s.log →
    a.nowMs + ttlMs ≤ s.clock ∨ .removing a.controller a.jobId ∈ l ∨
      s.tables.idempotencyKeys.get? (claimKey a.jobId) =
        some (recordOf ttlMs a.jobId (randomUUID a.call) a.nowMs)

/-- A released key is free until a claim of the job is stored. -/
def Freed (s : System) : Prop :=
  ∀ jobId token nowMs found l, .released jobId token nowMs found :: l <:+ s.log →
    s.tables.idempotencyKeys.get? (claimKey jobId) = none ∨ ∃ a, .stored a ∈ l ∧ a.jobId = jobId

/-- An entry is lawful behind the entries before it. -/
def Lawful (before : List LogEntry) : LogEntry → Prop
  | .stored b => ∀ a l, .stored a :: l <:+ before → a.jobId = b.jobId →
    a.nowMs + ttlMs ≤ b.clock ∨ .removing a.controller a.jobId ∈ l
  | .refused b => ∀ token nowMs found l, .released b.jobId token nowMs found :: l <:+ before →
    ∃ a, .stored a ∈ l ∧ a.jobId = b.jobId
  | .removing _ _ => True
  | .released _ token nowMs found => ∀ r, found = some r → r.binding = bindingOf token ∨ r.expired nowMs = true
  | .returned i result => result = true → ∃ a, .stored a ∈ before ∧ a.call = i

variable {randomUUID ttlMs}

variable {s s' : System} {i c c' : Nat} {call : Call} {k key jobId jobId' token : String}
  {nowMs : Number}

/-- A step of a call has a place among the phases that knows its claim. -/
theorem Claimed.go {a : Claim} {phase : Phase} {claims : Nat → Map String String}
    {tables : StateTables} {entries : List LogEntry} (h : Claimed a call)
    (goes : Go randomUUID ttlMs s i call phase claims tables entries) : Claimed a { call with phase } := by
  obtain ⟨hcontroller, hjob, hclaiming, hanswered⟩ := h
  refine ⟨hcontroller, hjob, ?_, fun hdelivery => ?_⟩
  · intro nowMs heq
    cases goes <;> cases heq
  · rcases hanswered hdelivery with hphase | hphase <;> cases goes <;> simp_all

theorem Recorded.move (h : Recorded s) (hmove : Move randomUUID ttlMs s s') : Recorded s' := by
  cases hmove with
  | idle => exact h
  | time now later => exact ⟨h.stored, h.returned⟩
  | spawn call entries spawned =>
    have hkeep {i : Nat} {c : Call} (hc : s.calls[i]? = some c) : (s.calls ++ [call])[i]? = some c :=
      (List.getElem?_append_left (List.getElem?_eq_some_iff.mp hc).1).trans hc
    constructor
    · intro a ha
      have ha' : .stored a ∈ s.log := by cases spawned <;> simpa using ha
      obtain ⟨c, hc, hclaimed⟩ := h.stored a ha'
      exact ⟨c, hkeep hc, hclaimed⟩
    · intro i r hr
      rcases mem_append.mp hr with hold | hnew
      · obtain ⟨c, hc, hended⟩ := h.returned i r hold
        exact ⟨c, hkeep hc, hended⟩
      · cases spawned <;> simp only [mem_singleton, not_mem_nil, reduceCtorEq, LogEntry.returned.injEq] at hnew
        obtain ⟨rfl, rfl⟩ := hnew
        exact ⟨_, List.getElem?_concat_length, rfl⟩
  | go i call phase claims tables entries found goes =>
    constructor
    · intro a ha
      rcases mem_append.mp ha with hold | hnew
      · obtain ⟨c, hc, hclaimed⟩ := h.stored a hold
        refine ⟨_, getElem?_set_of_some hc, ?_⟩
        split
        · next hi =>
          rw [hi, found] at hc
          cases hc
          exact hclaimed.go goes
        · exact hclaimed
      · cases goes <;> simp only [mem_singleton, not_mem_nil, reduceCtorEq, LogEntry.stored.injEq] at hnew
        subst hnew
        refine ⟨_, getElem?_set_of_some found, ?_⟩
        rw [if_pos rfl]
        refine ⟨rfl, rfl, fun nowMs => by simp, fun hdelivery => .inl ?_⟩
        simp only at hdelivery
        simp [System.arrived, hdelivery]
    · intro j r hr
      rcases mem_append.mp hr with hold | hnew
      · obtain ⟨c, hc, hended⟩ := h.returned j r hold
        refine ⟨_, getElem?_set_of_some hc, ?_⟩
        rw [if_neg]
        · exact hended
        · rintro rfl
          rw [found] at hc
          cases hc
          cases goes <;> simp_all
      · cases goes <;> simp only [mem_singleton, not_mem_nil, reduceCtorEq, LogEntry.returned.injEq] at hnew
        all_goals
          obtain ⟨rfl, rfl⟩ := hnew
          exact ⟨_, getElem?_set_of_some found, by rw [if_pos rfl]⟩

theorem Stored.mono (h : Stored s i) (hlog : s.log ⊆ s'.log) : Stored s' i := by
  obtain ⟨a, ha, hcall⟩ := h
  exact ⟨a, hlog ha, hcall⟩

theorem Recorded.claiming (h : Recorded s) {i : Nat} {call : Call} {nowMs : Number}
    (found : s.calls[i]? = some call) (phase : call.phase = .claiming nowMs) : ¬ Stored s i := by
  rintro ⟨a, ha, rfl⟩
  obtain ⟨c, hc, -, -, hnot, -⟩ := h.stored a ha
  rw [found] at hc
  cases hc
  exact hnot nowMs phase

theorem get?_of_delete {α : Type} {m : Map String α} {r : α}
    (h : (m.delete key).get? k = some r) : m.get? k = some r := by
  rw [Map.get?_delete] at h
  split at h
  · cases h
  · exact h

theorem get?_of_update_delete {claims : Nat → Map String String}
    (h : (Function.update claims c ((claims c).delete jobId) c').get? jobId' = some token) :
    (claims c').get? jobId' = some token := by
  by_cases hc : c' = c
  · subst hc
    rw [Function.update_self] at h
    exact get?_of_delete h
  · rwa [Function.update_of_ne hc] at h

theorem get?_update_set {claims : Nat → Map String String} {token' : String}
    (h : (Function.update claims c ((claims c).set jobId token) c').get? jobId' = some token') :
    (c' = c ∧ jobId' = jobId ∧ token' = token) ∨ (claims c').get? jobId' = some token' := by
  by_cases hc : c' = c
  · subst hc
    rw [Function.update_self, Map.get?_set] at h
    split at h
    · next hjob =>
      cases h
      exact .inl ⟨rfl, hjob, rfl⟩
    · exact .inr h
  · rw [Function.update_of_ne hc] at h
    exact .inr h

theorem Known.move (hrecorded : Recorded s) (h : Known randomUUID s)
    (hinj : Function.Injective randomUUID) (hmove : Move randomUUID ttlMs s s') : Known randomUUID s' := by
  cases hmove with
  | idle => exact h
  | time now later => exact ⟨h.bound, h.claims, h.answered⟩
  | spawn call entries spawned =>
    have hsub : s.log ⊆ s.log ++ entries := subset_append_left _ _
    refine ⟨fun k r n hr hb => (h.bound k r n hr hb).mono hsub, fun c job token ht => ?_, fun i c hc hphase => ?_⟩
    · obtain ⟨a, ha, hrest⟩ := h.claims c job token ht
      exact ⟨a, hsub ha, hrest⟩
    · rcases getElem?_snoc hc with ⟨-, rfl⟩ | hold
      · cases spawned <;> simp at hphase
      · exact (h.answered i c hold hphase).mono hsub
  | go i call phase claims tables entries found goes =>
    have hsub : s.log ⊆ s.log ++ entries := subset_append_left _ _
    refine ⟨fun k r n hr hb => ?_, fun c job token ht => ?_, fun j c hc hphase => ?_⟩
    · cases goes with
      | claimStored nowMs delivery tables phase taken =>
        rcases taken with ⟨-, -, -, rfl⟩ | ⟨-, rfl⟩
        · exact (h.bound k r n hr hb).mono hsub
        · simp only [claimed, Map.get?_set] at hr
          split at hr
          · cases hr
            exact ⟨_, mem_append_right _ (mem_singleton_self _), hinj (bindingOf_injective hb)⟩
          · exact (h.bound k r n hr hb).mono hsub
      | released token nowMs answer tables phase freed =>
        rcases freed with ⟨-, rfl⟩ | ⟨-, -, -, rfl⟩
        · exact (h.bound k r n hr hb).mono hsub
        · exact (h.bound k r n (get?_of_delete hr) hb).mono hsub
      | _ => exact (h.bound k r n hr hb).mono hsub
    · have hkeep (ht : (s.claims c).get? job = some token) :
          ∃ a, .stored a ∈ s.log ++ entries ∧ token = randomUUID a.call ∧ a.controller = c ∧ a.jobId = job := by
        obtain ⟨a, ha, hrest⟩ := h.claims c job token ht
        exact ⟨a, hsub ha, hrest⟩
      cases goes with
      | owns phase =>
        rcases get?_update_set ht with ⟨rfl, rfl, rfl⟩ | ht
        · obtain ⟨a, ha, hcall⟩ := h.answered i call found phase
          obtain ⟨c, hc, hcontroller, hjob, -⟩ := hrecorded.stored a ha
          rw [hcall, found] at hc
          cases hc
          exact ⟨a, hsub ha, by rw [hcall], hcontroller.symm, hjob.symm⟩
        · exact hkeep ht
      | forgets answer phase => exact hkeep (get?_of_update_delete ht)
      | _ => exact hkeep ht
    · rcases getElem?_set_cases hc with ⟨rfl, rfl⟩ | ⟨-, hold⟩
      · cases goes with
        | claimStored nowMs delivery tables phase taken =>
          exact ⟨_, mem_append_right _ (mem_singleton_self _), rfl⟩
        | readBack e stored phase read =>
          simp only [reduceCtorEq, Phase.readBack.injEq, false_or] at hphase
          obtain ⟨e', r, ⟨rfl, rfl⟩, hbinding⟩ := hphase
          exact (h.bound _ r j (read r rfl) hbinding).mono hsub
        | _ => simp at hphase
      · exact (h.answered j c hold hphase).mono hsub

theorem Past.mono (h : Past s nowMs) (hclock : s.clock = s'.clock ∨ s.clock ≤ s'.clock) :
    Past s' nowMs := by
  rcases h with rfl | h <;> rcases hclock with hclock | hclock
  · exact .inl hclock
  · exact .inr hclock
  · exact .inr (hclock ▸ h)
  · exact .inr (Number.le_trans h hclock)

/-- An expired claim is one whose time is over. -/
theorem Past.of_expired {start : Number} (h : Past s nowMs)
    (hexpired : (recordOf ttlMs jobId token start).expired nowMs = true) : start + ttlMs ≤ s.clock := by
  rw [IdempotencyKeyRecord.expired, Bool.and_eq_true, decide_eq_true_iff] at hexpired
  have hle : start + ttlMs ≤ nowMs := hexpired.2
  rcases h with rfl | h
  · exact hle
  · exact Number.le_trans hle h

theorem get?_delete_ne {α : Type} {m : Map String α} (h : k ≠ key) :
    (m.delete key).get? k = m.get? k := by
  rw [Map.get?_delete, if_neg h]

/-- A claim that the store takes meets no live claim of the job. -/
theorem Guarded.overtaken (h : Guarded randomUUID ttlMs s) {jobId : String} {nowMs : Number}
    (hpast : Past s nowMs)
    (hfree : ∀ r, s.tables.idempotencyKeys.get? (claimKey jobId) = some r → r.expired nowMs = true) {a : Claim}
    {l : List LogEntry} (ha : .stored a :: l <:+ s.log) (hjob : a.jobId = jobId) :
    a.nowMs + ttlMs ≤ s.clock ∨ .removing a.controller a.jobId ∈ l := by
  subst hjob
  rcases h a l ha with hover | hremoving | hkey
  · exact .inl hover
  · exact .inr hremoving
  · exact .inl (hpast.of_expired (hfree _ hkey))

/-- The record that a claim finds under its own token would be of an earlier claim of the same call. -/
theorem Known.not_own (hrecorded : Recorded s) (h : Known randomUUID s) {i : Nat} {call : Call}
    {nowMs : Number} {r : IdempotencyKeyRecord} (found : s.calls[i]? = some call)
    (phase : call.phase = .claiming nowMs) {k : String} (hr : s.tables.idempotencyKeys.get? k = some r) :
    r.binding ≠ bindingOf (randomUUID i) :=
  fun hbinding => hrecorded.claiming found phase (h.bound k r i hr hbinding)

/-- What holds between the store, the calls and the log. -/
structure Held (randomUUID : Nat → String) (ttlMs : Number) (s : System) : Prop where
  recorded : Recorded s
  known : Known randomUUID s
  waiting : Waiting randomUUID s
  guarded : Guarded randomUUID ttlMs s
  freed : Freed s

/-- How the log grows: by nothing, or by one entry that is lawful there. -/
theorem Held.grows (h : Held randomUUID ttlMs s) (hmove : Move randomUUID ttlMs s s') :
    s'.log = s.log ∨
      ∃ e, s'.log = s.log ++ [e] ∧ (∀ a, e = .stored a → ¬ Stored s a.call) ∧ Lawful ttlMs s.log e := by
  cases hmove with
  | idle => exact .inl rfl
  | time now later => exact .inl rfl
  | spawn call entries spawned =>
    cases spawned with
    | known c jobId => exact .inr ⟨_, rfl, by simp, by simp [Lawful]⟩
    | claim c jobId => exact .inl (append_nil _)
    | nothing c jobId => exact .inl (append_nil _)
    | release c jobId token owned => exact .inr ⟨_, rfl, by simp, trivial⟩
  | go i call phase claims tables entries found goes =>
    cases goes with
    | claimRefused nowMs e delivery r phase hr =>
      refine .inr ⟨_, rfl, by simp, fun token nowMs' found' l hl => ?_⟩
      rcases h.freed call.jobId token nowMs' found' l hl with hnone | hstored
      · rw [hr] at hnone
        cases hnone
      · exact hstored
    | claimStored nowMs delivery tables phase taken =>
      refine .inr ⟨_, rfl, ?_, fun a l ha hjob => ?_⟩
      · intro a ha
        cases ha
        exact h.recorded.claiming found phase
      · rcases taken with ⟨r, hr, hbinding, -⟩ | ⟨hfree, -⟩
        · exact absurd hbinding (h.known.not_own h.recorded found phase hr)
        · exact h.guarded.overtaken (h.waiting.claiming i call nowMs found phase) hfree ha hjob
    | released token nowMs answer tables phase freed =>
      refine .inr ⟨_, rfl, by simp, fun r hr => ?_⟩
      rcases freed with ⟨hnone, -⟩ | ⟨r', hr', hfree, -⟩
      · rw [hr] at hnone
        cases hnone
      · rw [hr] at hr'
        cases hr'
        exact hfree
    | answersFalse phase => exact .inr ⟨_, rfl, by simp, by simp [Lawful]⟩
    | owns phase => exact .inr ⟨_, rfl, by simp, fun _ => h.known.answered i call found phase⟩
    | _ => exact .inl (append_nil _)

/-- What a release knows stays, whatever comes behind it. -/
theorem Releases.move (h : Releases randomUUID s token)
    (hinj : Function.Injective randomUUID) (hheld : Held randomUUID ttlMs s)
    (hmove : Move randomUUID ttlMs s s') : Releases randomUUID s' token := by
  obtain ⟨⟨a, ha, rfl⟩, hremoving⟩ := h
  rcases hheld.grows hmove with hlog | ⟨e, hlog, hnew, -⟩
  · unfold Releases
    rw [hlog]
    exact ⟨⟨a, ha, rfl⟩, hremoving⟩
  · refine ⟨⟨a, by rw [hlog]; exact mem_append_left _ ha, rfl⟩, fun b l hb htoken => ?_⟩
    rw [hlog] at hb
    rcases suffix_snoc.mp hb with ⟨rfl, -⟩ | ⟨k, rfl, hk⟩
    · exact absurd ⟨a, ha, hinj htoken⟩ (hnew b rfl)
    · exact mem_append_left _ (hremoving b k hk htoken)

/-- A removal that has the token of its controller's claim is noted behind that claim. -/
theorem Held.releases (h : Held randomUUID ttlMs s) (hinj : Function.Injective randomUUID) {c : Nat}
    {jobId token : String} (owned : (s.claims c).get? jobId = some token) (call : Call) :
    Releases randomUUID { s with calls := s.calls ++ [call], log := s.log ++ [.removing c jobId] } token := by
  obtain ⟨a, ha, rfl, rfl, rfl⟩ := h.known.claims c jobId token owned
  refine ⟨⟨a, mem_append_left _ ha, rfl⟩, fun b l hb htoken => ?_⟩
  rcases suffix_snoc.mp hb with ⟨hne, -⟩ | ⟨k, rfl, hk⟩
  · cases hne
  · -- the two claims are of one call
    have hcall : a.call = b.call := hinj htoken
    obtain ⟨ca, hca, hcontroller, hjob, -⟩ := h.recorded.stored a ha
    obtain ⟨cb, hcb, hcontroller', hjob', -⟩ := h.recorded.stored b (hk.subset mem_cons_self)
    rw [hcall, hcb] at hca
    cases hca
    rw [← hcontroller, ← hjob, hcontroller', hjob']
    exact mem_append_right _ (mem_singleton_self _)

theorem Held.move_waiting (h : Held randomUUID ttlMs s) (hinj : Function.Injective randomUUID)
    (hmove : Move randomUUID ttlMs s s') : Waiting randomUUID s' := by
  have hkeep {token : String} (hreleases : Releases randomUUID s token) : Releases randomUUID s' token :=
    hreleases.move hinj h hmove
  cases hmove with
  | idle => exact h.waiting
  | time now later =>
    refine ⟨fun i call nowMs hi hp => ?_, fun i call token nowMs hi hp => ?_⟩
    · exact (h.waiting.claiming i call nowMs hi hp).mono (.inr later)
    · obtain ⟨hpast, hreleases⟩ := h.waiting.releasing i call token nowMs hi hp
      exact ⟨hpast.mono (.inr later), hkeep hreleases⟩
  | spawn call entries spawned =>
    refine ⟨fun i c nowMs hi hp => ?_, fun i c token nowMs hi hp => ?_⟩
    · rcases getElem?_snoc hi with ⟨-, rfl⟩ | hold
      · cases spawned <;> cases hp
        exact .inl rfl
      · exact (h.waiting.claiming i c nowMs hold hp).mono (.inl rfl)
    · rcases getElem?_snoc hi with ⟨-, rfl⟩ | hold
      · cases spawned <;> cases hp
        next owned => exact ⟨.inl rfl, h.releases hinj owned _⟩
      · obtain ⟨hpast, hreleases⟩ := h.waiting.releasing i c token nowMs hold hp
        exact ⟨hpast.mono (.inl rfl), hkeep hreleases⟩
  | go i call phase claims tables entries found goes =>
    refine ⟨fun j c nowMs hj hp => ?_, fun j c token nowMs hj hp => ?_⟩
    · rcases getElem?_set_cases hj with ⟨rfl, rfl⟩ | ⟨-, hold⟩
      · cases goes <;> cases hp
      · exact (h.waiting.claiming j c nowMs hold hp).mono (.inl rfl)
    · rcases getElem?_set_cases hj with ⟨rfl, rfl⟩ | ⟨-, hold⟩
      · cases goes <;> cases hp
      · obtain ⟨hpast, hreleases⟩ := h.waiting.releasing j c token nowMs hold hp
        exact ⟨hpast.mono (.inl rfl), hkeep hreleases⟩

/-- Where the keys stay, the claims stay guarded. -/
theorem Guarded.keep (h : Guarded randomUUID ttlMs s) (hclock : s.clock = s'.clock ∨ s.clock ≤ s'.clock)
    (htables : s'.tables = s.tables)
    (hlog : s'.log = s.log ∨ ∃ e, s'.log = s.log ++ [e] ∧ ∀ a, e ≠ .stored a) : Guarded randomUUID ttlMs s' := by
  have hold (a : Claim) (l : List LogEntry) (ha : .stored a :: l <:+ s.log) :
      a.nowMs + ttlMs ≤ s'.clock ∨ .removing a.controller a.jobId ∈ l ∨
        s'.tables.idempotencyKeys.get? (claimKey a.jobId) =
          some (recordOf ttlMs a.jobId (randomUUID a.call) a.nowMs) := by
    rw [htables]
    rcases h a l ha with hover | hrest
    · rcases hclock with hclock | hclock
      · exact .inl (hclock ▸ hover)
      · exact .inl (Number.le_trans hover hclock)
    · exact .inr hrest
  rintro a l ha
  rcases hlog with hlog | ⟨e, hlog, hnot⟩
  · rw [hlog] at ha
    exact hold a l ha
  · rw [hlog] at ha
    rcases suffix_snoc.mp ha with ⟨rfl, -⟩ | ⟨k, rfl, hk⟩
    · exact absurd rfl (hnot a)
    · exact (hold a k hk).imp_right (.imp_left (mem_append_left _))

theorem Held.move_guarded (h : Held randomUUID ttlMs s) (hmove : Move randomUUID ttlMs s s') :
    Guarded randomUUID ttlMs s' := by
  cases hmove with
  | idle => exact h.guarded
  | time now later => exact h.guarded.keep (.inr later) rfl (.inl rfl)
  | spawn call entries spawned =>
    cases spawned with
    | known c jobId => exact h.guarded.keep (.inl rfl) rfl (.inr ⟨_, rfl, by simp⟩)
    | release c jobId token owned => exact h.guarded.keep (.inl rfl) rfl (.inr ⟨_, rfl, by simp⟩)
    | _ => exact h.guarded.keep (.inl rfl) rfl (.inl (append_nil _))
  | go i call phase claims tables entries found goes =>
    cases goes with
    | claimStored nowMs delivery tables phase taken =>
      rcases taken with ⟨r, hr, hbinding, -⟩ | ⟨hfree, rfl⟩
      · exact absurd hbinding (h.known.not_own h.recorded found phase hr)
      · intro a l ha
        rcases suffix_snoc.mp ha with ⟨heq, rfl⟩ | ⟨k, rfl, hk⟩
        · cases heq
          exact .inr (.inr (Map.get?_set_self _ _ _))
        · by_cases hjob : a.jobId = call.jobId
          · exact (h.guarded.overtaken (h.waiting.claiming i call nowMs found phase) hfree hk hjob).imp_right
              fun hremoving => .inl (mem_append_left _ hremoving)
          · refine (h.guarded a k hk).imp_right (.imp (mem_append_left _) fun hkey => ?_)
            exact (Map.get?_set_ne fun heq => hjob (claimKey_injective heq)).trans hkey
    | released token nowMs answer tables phase freed =>
      rcases freed with ⟨-, rfl⟩ | ⟨r, hr, hfree, rfl⟩
      · exact h.guarded.keep (.inl rfl) rfl (.inr ⟨_, rfl, by simp⟩)
      · obtain ⟨hpast, -, hremoving⟩ := h.waiting.releasing i call token nowMs found phase
        intro a l ha
        rcases suffix_snoc.mp ha with ⟨heq, -⟩ | ⟨k, rfl, hk⟩
        · cases heq
        · rcases h.guarded a k hk with hover | hrem | hkey
          · exact .inl hover
          · exact .inr (.inl (mem_append_left _ hrem))
          · by_cases hjob : a.jobId = call.jobId
            · rw [hjob, hr] at hkey
              cases hkey
              rcases hfree with hbinding | hexpired
              · exact .inr (.inl (mem_append_left _
                  (hremoving a k hk (bindingOf_injective hbinding).symm)))
              · exact .inl (hpast.of_expired hexpired)
            · exact .inr (.inr ((get?_delete_ne fun heq => hjob (claimKey_injective heq)).trans hkey))
    | claimRefused nowMs e delivery r phase hr => exact h.guarded.keep (.inl rfl) rfl (.inr ⟨_, rfl, by simp⟩)
    | answersFalse phase => exact h.guarded.keep (.inl rfl) rfl (.inr ⟨_, rfl, by simp⟩)
    | owns phase => exact h.guarded.keep (.inl rfl) rfl (.inr ⟨_, rfl, by simp⟩)
    | _ => exact h.guarded.keep (.inl rfl) rfl (.inl (append_nil _))

/-- Where the keys stay, released keys stay free. -/
theorem Freed.keep (h : Freed s) (htables : s'.tables = s.tables)
    (hlog : s'.log = s.log ∨
      ∃ e, s'.log = s.log ++ [e] ∧ ∀ jobId token nowMs found, e ≠ .released jobId token nowMs found) : Freed s' := by
  intro jobId token nowMs found l hl
  rw [htables]
  rcases hlog with hlog | ⟨e, hlog, hnot⟩
  · rw [hlog] at hl
    exact h jobId token nowMs found l hl
  · rw [hlog] at hl
    rcases suffix_snoc.mp hl with ⟨rfl, -⟩ | ⟨k, rfl, hk⟩
    · exact absurd rfl (hnot jobId token nowMs found)
    · refine (h jobId token nowMs found k hk).imp_right ?_
      rintro ⟨a, ha, hjob⟩
      exact ⟨a, mem_append_left _ ha, hjob⟩

theorem Held.move_freed (h : Held randomUUID ttlMs s) (hmove : Move randomUUID ttlMs s s') :
    Freed s' := by
  cases hmove with
  | idle => exact h.freed
  | time now later => exact h.freed.keep rfl (.inl rfl)
  | spawn call entries spawned =>
    cases spawned with
    | known c jobId => exact h.freed.keep rfl (.inr ⟨_, rfl, by simp⟩)
    | release c jobId token owned => exact h.freed.keep rfl (.inr ⟨_, rfl, by simp⟩)
    | _ => exact h.freed.keep rfl (.inl (append_nil _))
  | go i call phase claims tables entries found goes =>
    cases goes with
    | claimStored nowMs delivery tables phase taken =>
      intro jobId token nowMs' found' l hl
      rcases suffix_snoc.mp hl with ⟨heq, -⟩ | ⟨k, rfl, hk⟩
      · cases heq
      · by_cases hjob : jobId = call.jobId
        · exact .inr ⟨_, mem_append_right _ (mem_singleton_self _), hjob.symm⟩
        · rcases h.freed jobId token nowMs' found' k hk with hnone | ⟨a, ha, hjob⟩
          · refine .inl ?_
            rcases taken with ⟨-, -, -, rfl⟩ | ⟨-, rfl⟩
            · exact hnone
            · exact (Map.get?_set_ne fun heq => hjob (claimKey_injective heq)).trans hnone
          · exact .inr ⟨a, mem_append_left _ ha, hjob⟩
    | released token nowMs answer tables phase freed =>
      have hnone {key : String} (hkey : s.tables.idempotencyKeys.get? key = none) :
          tables.idempotencyKeys.get? key = none := by
        rcases freed with ⟨-, rfl⟩ | ⟨-, -, -, rfl⟩
        · exact hkey
        · simp [Map.get?_delete, hkey]
      intro jobId token' nowMs' found' l hl
      rcases suffix_snoc.mp hl with ⟨heq, rfl⟩ | ⟨k, rfl, hk⟩
      · cases heq
        refine .inl ?_
        rcases freed with ⟨hkey, rfl⟩ | ⟨-, -, -, rfl⟩
        · exact hkey
        · simp [Map.get?_delete]
      · rcases h.freed jobId token' nowMs' found' k hk with hkey | ⟨a, ha, hjob⟩
        · exact .inl (hnone hkey)
        · exact .inr ⟨a, mem_append_left _ ha, hjob⟩
    | claimRefused nowMs e delivery r phase hr => exact h.freed.keep rfl (.inr ⟨_, rfl, by simp⟩)
    | answersFalse phase => exact h.freed.keep rfl (.inr ⟨_, rfl, by simp⟩)
    | owns phase => exact h.freed.keep rfl (.inr ⟨_, rfl, by simp⟩)
    | _ => exact h.freed.keep rfl (.inl (append_nil _))

theorem Held.move (h : Held randomUUID ttlMs s) (hinj : Function.Injective randomUUID)
    (hmove : Move randomUUID ttlMs s s') : Held randomUUID ttlMs s' where
  recorded := h.recorded.move hmove
  known := h.known.move h.recorded hinj hmove
  waiting := h.move_waiting hinj hmove
  guarded := h.move_guarded hmove
  freed := h.move_freed hmove

/-! ## Runs -/

variable (randomUUID) in
/-- No record of the store is bound to a token that is still to be drawn. -/
def Unclaimed (tables : StateTables) : Prop :=
  ∀ k r n, tables.idempotencyKeys.get? k = some r → r.binding ≠ bindingOf (randomUUID n)

theorem held_boot (clock : Number) {tables : StateTables} (h : Unclaimed randomUUID tables) :
    Held randomUUID ttlMs (System.boot clock tables) where
  recorded := ⟨fun a ha => absurd ha not_mem_nil, fun i r hr => absurd hr not_mem_nil⟩
  known :=
    ⟨fun k r n hr hb => absurd hb (h k r n hr), fun c job token ht => by simp [System.boot] at ht,
      fun i call hi => by simp [System.boot] at hi⟩
  waiting := ⟨fun i call nowMs hi => by simp [System.boot] at hi, fun i call token nowMs hi => by simp [System.boot] at hi⟩
  guarded := fun a l ha => by simp [System.boot] at ha
  freed := fun jobId token nowMs found l hl => by simp [System.boot] at hl

/-- The state behind a run and its log. -/
structure Sound (randomUUID : Nat → String) (ttlMs : Number) (s : System) : Prop where
  held : Held randomUUID ttlMs s
  lawful : ∀ before e, before ++ [e] <+: s.log → Lawful ttlMs before e

theorem Sound.move (h : Sound randomUUID ttlMs s) (hinj : Function.Injective randomUUID)
    (hmove : Move randomUUID ttlMs s s') : Sound randomUUID ttlMs s' := by
  refine ⟨h.held.move hinj hmove, fun before e hprefix => ?_⟩
  rcases h.held.grows hmove with hlog | ⟨e', hlog, -, hlawful⟩
  · rw [hlog] at hprefix
    exact h.lawful before e hprefix
  · rw [hlog] at hprefix
    rcases prefix_concat_iff.mp hprefix with heq | hprefix
    · obtain ⟨rfl, htail⟩ := append_inj' heq rfl
      cases htail
      exact hlawful
    · exact h.lawful before e hprefix

theorem sound_run (hinj : Function.Injective randomUUID) (clock : Number) {tables : StateTables}
    (h : Unclaimed randomUUID tables) (events : List Event) :
    Sound randomUUID ttlMs (Machine.run (System.step randomUUID ttlMs) (System.boot clock tables) events) := by
  refine Machine.invariant (I := Sound randomUUID ttlMs) (fun s e hs => hs.move hinj (move_step randomUUID ttlMs s e)) ?_ events
  refine ⟨held_boot clock h, fun before e hprefix => ?_⟩
  simp [System.boot] at hprefix

/-! ## Owners -/

/-- A store that has no records takes the claim. -/
def WellFormed (ttlMs : Number) (jobId token : String) (nowMs : Number) : Prop :=
  ∃ tables, applyBatch (fun _ => true) .empty [claimMutation ttlMs jobId token nowMs] = .ok tables

/-- A well-formed claim that reaches a free key is stored. -/
theorem storeClaim_free {delivery : Delivery}
    (hfree : s.tables.idempotencyKeys.get? (claimKey call.jobId) = none) (hreached : delivery ≠ .requestLost)
    (hwell : WellFormed ttlMs call.jobId (randomUUID i) nowMs) :
    .stored ⟨i, call.controller, call.jobId, nowMs, s.clock, delivery⟩ ∈
      (s.storeClaim randomUUID ttlMs i call nowMs delivery).log := by
  obtain ⟨tables, htables⟩ := hwell
  unfold System.storeClaim
  rw [if_neg hreached]
  rcases claim_cases ttlMs call.jobId (randomUUID i) nowMs with ⟨e, -, heq⟩ | heq
  · rw [heq] at htables
    cases htables
  · dsimp only
    rw [heq, hfree]
    exact mem_append_right _ (mem_singleton_self _)

/-- Behind a release of the job and no further claim, a claim of the job that reaches the store is stored. -/
theorem Held.stored_of_released (h : Held randomUUID ttlMs s) {jobId token : String} {nowMs : Number}
    {found : Option IdempotencyKeyRecord} {l : List LogEntry}
    (hreleased : .released jobId token nowMs found :: l <:+ s.log) (hlast : ∀ a, .stored a ∈ l → a.jobId ≠ jobId)
    {i : Nat} {call : Call} (hcall : s.calls[i]? = some call) (hjob : call.jobId = jobId) {start : Number}
    (hphase : call.phase = .claiming start) (hwell : WellFormed ttlMs jobId (randomUUID i) start)
    {delivery : Delivery} (hreached : delivery ≠ .requestLost) :
    .stored ⟨i, call.controller, jobId, start, s.clock, delivery⟩ ∈ (s.store randomUUID ttlMs i delivery).log := by
  subst hjob
  have hfree : s.tables.idempotencyKeys.get? (claimKey call.jobId) = none := by
    rcases h.freed call.jobId token nowMs found l hreleased with hnone | ⟨a, ha, hjob⟩
    · exact hnone
    · exact absurd hjob (hlast a ha)
  unfold System.store
  rw [hcall]
  dsimp only
  rw [hphase]
  exact storeClaim_free hfree hreached hwell

/-- A claim that was acknowledged has one answer. -/
theorem Recorded.answers (h : Recorded s) {a : Claim} {r : Bool} (ha : .stored a ∈ s.log)
    (hdelivery : a.delivery = .answered) (hr : .returned a.call r ∈ s.log) : r = true := by
  obtain ⟨call, hcall, -, -, -, hphase⟩ := h.stored a ha
  obtain ⟨call', hcall', hended⟩ := h.returned a.call r hr
  rw [hcall] at hcall'
  cases hcall'
  rcases hphase hdelivery with hphase | hphase <;> rw [hended] at hphase <;> cases hphase
  rfl

/-- Tokens of growing length. -/
def longerToken (n : Nat) : String := String.ofList (List.replicate n 'x')

theorem longerToken_injective : Function.Injective longerToken := by
  intro n m h
  have hlength := congrArg String.length h
  simpa [longerToken] using hlength

/-- Controller `0` claims, its claim expires, controller `1` takes the job over; then `0` removes too late. -/
def lateRemove : List Event :=
  [.addIfAbsent 0 "job", .store 0 .answered, .resume 0, .time 10, .addIfAbsent 1 "job", .store 1 .answered, .resume 1,
    .time 20, .remove 0 "job", .store 2 .answered, .resume 2]

theorem unclaimed_empty : Unclaimed randomUUID .empty := by
  intro k r n hr
  simp [StateTables.empty] at hr

/-- The state behind events of two controllers that start with an empty store. -/
def behind (events : List Event) : System :=
  Machine.run (System.step longerToken 10) (System.boot 0 .empty) events

/-- The answer for controller `0` takes until `5`, that for controller `1`, which claims at `10`, comes at once. -/
def slowAnswer : List Event := [.addIfAbsent 0 "job", .store 0 .answered, .time 5, .resume 0]

def takeover : List Event := [.time 10, .addIfAbsent 1 "job", .store 1 .answered, .resume 1]

end

end PrReviewer.Controller.GenerationLedger
