import PrReviewer.Js.Json

/-!
# Percent-decoding

`decodeURIComponent` by characters: an escape `%XX` below `0x80` is a character, an escape from `0xC2` on begins
the UTF-8 sequence of one, and anything else after a `%` throws. A character that is not part of an escape stays
(`mem_of_decodeURIComponent`).
-/

namespace Js

/-- An escape `%XX` at the front, and what follows it. -/
def escape? : List Char → Option (Nat × List Char)
  | '%' :: a :: b :: cs => do
    let x ← Json.hexValue a
    let y ← Json.hexValue b
    some (16 * x + y, cs)
  | _ => none

/-- `n` continuation bytes of a UTF-8 sequence that began with the bits `acc`. -/
def continuation : Nat → Nat → List Char → Option (Nat × List Char)
  | 0, acc, cs => some (acc, cs)
  | n + 1, acc, cs => do
    let (b, cs) ← escape? cs
    if 0x80 ≤ b && b < 0xC0 then continuation n (acc * 64 + (b - 0x80)) cs else none

/-- How many bytes follow a first byte, the bits that it gives, and the least code that needs as many. -/
def firstByte (b : Nat) : Option (Nat × Nat × Nat) :=
  if b < 0x80 then some (0, b, 0)
  else if b < 0xC0 then none
  else if b < 0xE0 then some (1, b - 0xC0, 0x80)
  else if b < 0xF0 then some (2, b - 0xE0, 0x800)
  else if b < 0xF8 then some (3, b - 0xF0, 0x10000)
  else none

/-- The character at a `%`, and what follows it. -/
def escapedChar (cs : List Char) : Option (Char × List Char) := do
  let (b, cs) ← escape? cs
  let (n, bits, least) ← firstByte b
  let (code, cs) ← continuation n bits cs
  if least ≤ code ∧ code.isValidChar then some (Char.ofNat code, cs) else none

/-- The decoded characters; every turn takes one at least. -/
def decodeFrom : Nat → List Char → Option (List Char)
  | _, [] => some []
  | 0, _ :: _ => none
  | fuel + 1, c :: cs =>
    if c = '%' then do
      let (d, rest) ← escapedChar (c :: cs)
      (decodeFrom fuel rest).map (d :: ·)
    else (decodeFrom fuel cs).map (c :: ·)

/-- `decodeURIComponent(s)`, or `none` where it throws. -/
def decodeURIComponent (s : String) : Option String :=
  (decodeFrom s.toList.length s.toList).map String.ofList

/-! ## What stays -/

/-- No digit and no `%`. -/
def IsPlain (c : Char) : Prop := c ≠ '%' ∧ Json.hexValue c = none

variable {c : Char} {cs rest : List Char}

theorem mem_of_escape {b : Nat} (hc : IsPlain c) (h : escape? cs = some (b, rest)) (hmem : c ∈ cs) :
    c ∈ rest := by
  unfold escape? at h
  split at h
  · next x y cs =>
    cases hx : Json.hexValue x with
    | none => simp [hx] at h
    | some m =>
      cases hy : Json.hexValue y with
      | none => simp [hx, hy] at h
      | some n =>
        simp only [hx, hy, Option.bind_eq_bind, Option.bind_some, Option.some.injEq,
          Prod.mk.injEq] at h
        obtain ⟨-, rfl⟩ := h
        simp only [List.mem_cons] at hmem
        rcases hmem with rfl | rfl | rfl | hmem
        · exact absurd rfl hc.1
        · rw [hc.2] at hx
          cases hx
        · rw [hc.2] at hy
          cases hy
        · exact hmem
  · cases h

theorem mem_of_continuation (hc : IsPlain c) {n acc code : Nat}
    (h : continuation n acc cs = some (code, rest)) (hmem : c ∈ cs) : c ∈ rest := by
  induction n generalizing acc cs with
  | zero =>
    cases h
    exact hmem
  | succ n ih =>
    rw [continuation, Option.bind_eq_bind, Option.bind_eq_some_iff] at h
    obtain ⟨⟨b, cs'⟩, hescape, h⟩ := h
    dsimp only at h
    split at h
    · exact ih h (mem_of_escape hc hescape hmem)
    · cases h

theorem mem_of_escapedChar (hc : IsPlain c) {d : Char} (h : escapedChar cs = some (d, rest))
    (hmem : c ∈ cs) : c ∈ rest := by
  rw [escapedChar, Option.bind_eq_bind, Option.bind_eq_some_iff] at h
  obtain ⟨⟨b, cs'⟩, hescape, h⟩ := h
  dsimp only at h
  rw [Option.bind_eq_bind, Option.bind_eq_some_iff] at h
  obtain ⟨⟨n, bits, least⟩, -, h⟩ := h
  dsimp only at h
  rw [Option.bind_eq_some_iff] at h
  obtain ⟨⟨code, cs''⟩, hcontinuation, h⟩ := h
  dsimp only at h
  split at h
  · cases h
    exact mem_of_continuation hc hcontinuation (mem_of_escape hc hescape hmem)
  · cases h

theorem mem_of_decodeFrom (hc : IsPlain c) {fuel : Nat} {ds : List Char}
    (h : decodeFrom fuel cs = some ds) (hmem : c ∈ cs) : c ∈ ds := by
  induction fuel generalizing cs ds with
  | zero =>
    cases cs with
    | nil => cases hmem
    | cons d cs => cases h
  | succ fuel ih =>
    cases cs with
    | nil => cases hmem
    | cons d cs =>
      rw [decodeFrom] at h
      split at h
      · rw [Option.bind_eq_bind, Option.bind_eq_some_iff] at h
        obtain ⟨⟨e, rest⟩, hescaped, h⟩ := h
        rw [Option.map_eq_some_iff] at h
        obtain ⟨ds', hds, rfl⟩ := h
        exact List.mem_cons_of_mem _ (ih hds (mem_of_escapedChar hc hescaped hmem))
      · rw [Option.map_eq_some_iff] at h
        obtain ⟨ds', hds, rfl⟩ := h
        rw [List.mem_cons] at hmem ⊢
        exact hmem.imp_right (ih hds)

/-- A character that is not part of an escape stays. -/
theorem mem_of_decodeURIComponent (hc : IsPlain c) {s t : String}
    (h : decodeURIComponent s = some t) (hmem : c ∈ s.toList) : c ∈ t.toList := by
  rw [decodeURIComponent, Option.map_eq_some_iff] at h
  obtain ⟨ds, hds, rfl⟩ := h
  rw [String.toList_ofList]
  exact mem_of_decodeFrom hc hds hmem

end Js
