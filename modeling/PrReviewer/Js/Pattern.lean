import Mathlib.Data.List.Infix
import PrReviewer.Js.Units

/-!
# Patterns over code units

`Pattern` is a regular expression over the code units of a text. `ends r p` lists the places where a match of `r` from
`p` can end, in the order in which the backtracking matcher tries them, so the match is the first of them
(`matchAt`). `replaceAll` is `s.replace(re, m)` under the flag `g` for a replacement text `m`: what it returns has units
of the text and of `m` only (`mem_replaceAll`).
-/

open List

namespace Js

/-- A place in a text: the units before it, backwards, those after it, and the groups captured on the way. -/
structure Place where
  before : Units
  after : Units
  groups : List (Nat × Units)

/-- The text of group `n` of a match that ends here, if it took part. -/
def Place.group? (p : Place) (n : Nat) : Option Units := p.groups.lookup n

inductive Pattern where
  | empty
  /-- A unit of a class. -/
  | unit (q : UInt16 → Bool)
  | seq (r s : Pattern)
  /-- `r|s`: the left side first. -/
  | alt (r s : Pattern)
  /-- `r*`, greedy. -/
  | star (r : Pattern)
  /-- `(r)`, the group of number `n`. -/
  | group (n : Nat) (r : Pattern)
  /-- A condition on the units before and after the place. -/
  | assert (q : Option UInt16 → Option UInt16 → Bool)

namespace Pattern

/-! ## Patterns -/

def concat (rs : List Pattern) : Pattern := rs.foldr seq empty

/-- `r₁|…|rₙ`. -/
def choice : List Pattern → Pattern
  | [] => assert fun _ _ => false
  | [r] => r
  | r :: rs => alt r (choice rs)

/-- `r?`, for an `r` that does not match the empty text. -/
def opt (r : Pattern) : Pattern := alt r empty

/-- `r{n}`. -/
def times (n : Nat) (r : Pattern) : Pattern := concat (List.replicate n r)

/-- `r{n,}`. -/
def atLeast (n : Nat) (r : Pattern) : Pattern := seq (times n r) (star r)

def plus (r : Pattern) : Pattern := atLeast 1 r

/-- The lower-case letter of an ASCII letter, any other unit as it is. -/
def foldCase (u : UInt16) : UInt16 := if 65 ≤ u && u ≤ 90 then u + 32 else u

/-- A text as a pattern. -/
def literal (s : String) : Pattern := concat ((units s).map fun u => unit (· == u))

/-- An ASCII text as a pattern under the flag `i`. -/
def literalIgnoreCase (s : String) : Pattern := concat ((units s).map fun u => unit fun v => foldCase v == foldCase u)

/-- A class of single units. -/
def anyOf (s : String) : UInt16 → Bool := fun u => (units s).contains u

def isDigitUnit (u : UInt16) : Bool := 48 ≤ u && u ≤ 57

def isLetterUnit (u : UInt16) : Bool := (65 ≤ u && u ≤ 90) || (97 ≤ u && u ≤ 122)

/-- `[A-Za-z0-9]`. -/
def isAlnum (u : UInt16) : Bool := isLetterUnit u || isDigitUnit u

/-- `\s`; no surrogate is white space. -/
def isSpaceUnit (u : UInt16) : Bool := isSpace (Char.ofNat u.toNat)

/-- `^` without the flag `m`. -/
def textStart : Pattern := assert fun b _ => b.isNone

/-- `$` without the flag `m`. -/
def textEnd : Pattern := assert fun _ a => a.isNone

/-! ## Matching -/

/-- The ends of `r*`: as many repetitions as possible first, each with at least one unit. -/
def starEnds (f : Place → List Place) : Nat → Place → List Place
  | 0, p => [p]
  | fuel + 1, p =>
    (f p).flatMap (fun q => if q.after.length = p.after.length then [] else starEnds f fuel q) ++ [p]

/-- Where a match of `r` from `p` can end, the preferred end first. -/
def ends : Pattern → Place → List Place
  | empty, p => [p]
  | unit q, p =>
    match p.after with
    | [] => []
    | u :: us => if q u then [{ p with before := u :: p.before, after := us }] else []
  | seq r s, p => (r.ends p).flatMap s.ends
  | alt r s, p => r.ends p ++ s.ends p
  -- every repetition takes a unit, so there are at most as many as units
  | star r, p => starEnds r.ends p.after.length p
  | group n r, p =>
    (r.ends p).map fun q => { q with groups := (n, p.after.take (p.after.length - q.after.length)) :: q.groups }
  | assert q, p => if q p.before.head? p.after.head? then [p] else []

/-- The end of the match of `r` that begins between `before` and `after`. -/
def matchAt (r : Pattern) (before after : Units) : Option Place := (r.ends ⟨before, after, []⟩).head?

/-- `re.exec(s)` from a place on: the first match. -/
def execFrom (r : Pattern) : Units → Units → Option Place
  | before, [] => r.matchAt before []
  | before, u :: us => (r.matchAt before (u :: us)).or (execFrom r (u :: before) us)

/-- `re.exec(s)`. -/
def exec (r : Pattern) (s : Units) : Option Place := r.execFrom [] s

/-- `re.test(s)`. -/
def test (r : Pattern) (s : Units) : Bool := (r.exec s).isSome

/-- The text from a place on with every match replaced by `m`; after an empty match the search goes on one unit
further. -/
def replaceAllFrom (r : Pattern) (m : Units) : Nat → Units → Units → Units
  | 0, _, after => after
  | _ + 1, before, [] =>
    match r.matchAt before [] with
    | some _ => m
    | none => []
  | fuel + 1, before, u :: us =>
    match r.matchAt before (u :: us) with
    | some p =>
      if p.after.length = (u :: us).length then m ++ u :: replaceAllFrom r m fuel (u :: before) us
      else m ++ replaceAllFrom r m fuel p.before p.after
    | none => u :: replaceAllFrom r m fuel (u :: before) us

/-- `s.replace(re, m)` under the flag `g`. -/
def replaceAll (r : Pattern) (m s : Units) : Units := r.replaceAllFrom m (s.length + 1) [] s

/-! ## What a replacement returns -/

variable {r : Pattern} {p q : Place}

theorem suffix_of_mem_starEnds {f : Place → List Place} (hf : ∀ {p q}, q ∈ f p → q.after <:+ p.after) {fuel : Nat}
    (h : q ∈ starEnds f fuel p) : q.after <:+ p.after := by
  induction fuel generalizing p with
  | zero => rw [mem_singleton.mp h]
  | succ fuel ih =>
    rcases mem_append.mp h with h | h
    · obtain ⟨q', hq', h⟩ := mem_flatMap.mp h
      split at h
      · simp at h
      · exact (ih h).trans (hf hq')
    · rw [mem_singleton.mp h]

/-- A match goes on to the right. -/
theorem suffix_of_mem_ends (h : q ∈ r.ends p) : q.after <:+ p.after := by
  induction r generalizing p q with
  | empty => rw [mem_singleton.mp h]
  | unit c =>
    rw [ends] at h
    split at h
    · simp at h
    · next u us hus =>
      split at h
      · rw [mem_singleton.mp h, hus]
        exact suffix_cons u us
      · simp at h
  | seq r s ihr ihs =>
    obtain ⟨q', hq', h⟩ := mem_flatMap.mp h
    exact (ihs h).trans (ihr hq')
  | alt r s ihr ihs =>
    rcases mem_append.mp h with h | h
    · exact ihr h
    · exact ihs h
  | star r ih => exact suffix_of_mem_starEnds ih h
  | group n r ih =>
    obtain ⟨q', hq', rfl⟩ := mem_map.mp h
    have hsuffix := ih hq'
    exact hsuffix
  | assert c =>
    rw [ends] at h
    split at h
    · rw [mem_singleton.mp h]
    · simp at h

variable {before after m : Units} {u : UInt16}

theorem suffix_of_matchAt (h : r.matchAt before after = some p) : p.after <:+ after :=
  suffix_of_mem_ends (List.mem_of_head? h)

theorem mem_replaceAllFrom {fuel : Nat}
    (h : u ∈ r.replaceAllFrom m fuel before after) : u ∈ m ∨ u ∈ after := by
  induction fuel generalizing before after with
  | zero => exact .inr h
  | succ fuel ih =>
    cases after with
    | nil =>
      rw [replaceAllFrom] at h
      split at h
      · exact .inl h
      · simp at h
    | cons v vs =>
      rw [replaceAllFrom] at h
      split at h
      · next p hp =>
        split at h
        · rcases mem_append.mp h with h | h
          · exact .inl h
          · rcases mem_cons.mp h with rfl | h
            · exact .inr mem_cons_self
            · exact (ih h).imp_right (mem_cons_of_mem v)
        · rcases mem_append.mp h with h | h
          · exact .inl h
          · exact (ih h).imp_right fun h => (suffix_of_matchAt hp).subset h
      · rcases mem_cons.mp h with rfl | h
        · exact .inr mem_cons_self
        · exact (ih h).imp_right (mem_cons_of_mem v)

theorem mem_replaceAll {s : Units} (h : u ∈ r.replaceAll m s) : u ∈ m ∨ u ∈ s := mem_replaceAllFrom h

end Pattern

end Js
