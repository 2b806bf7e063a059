import PrReviewer.Js.Cut

/-!
# Regular expressions

`RegExp` is a pattern, `RegExp.run` the backtracking matcher of the language: it tries the ways to match
in the order of their priority and takes the first one after which the rest of the match (the
continuation) succeeds.

- A position (`Cursor`) is the text before it, backwards, and the text after it. Assertions look at the
  characters next to it.
- No pattern here repeats a group, so the groups are not cleared before a repetition.
- Matching goes by characters and not by code units. A pattern that is only used with classes of
  characters of the basic plane, or with their complements under `*`, does not see the difference.
- `test`, `replaceFirst` and `replaceAll` are `re.test(s)` and `s.replace(re, f)` without and with the
  flag `g`.

A pattern is `Deterministic` when it can match at a position in at most one way; then a match of it followed by the rest
of a pattern is found without backtracking. Texts, characters and sequences are (`deterministic_literal`,
`deterministic_seq`), and a repetition is when the rest cannot start where another repetition could
(`run_star`).
-/

namespace Js

/-- A position in a text, and the groups captured before it. -/
structure Cursor where
  before : List Char
  after : List Char
  groups : List (Nat × List Char)

inductive RegExp where
  | empty
  /-- A character of a class. -/
  | char (p : Char → Bool)
  | seq (r s : RegExp)
  /-- `r|s`: the left side first. -/
  | alt (r s : RegExp)
  /-- `r*`, greedy. -/
  | star (r : RegExp)
  /-- `(r)`, the group of number `n`. -/
  | group (n : Nat) (r : RegExp)
  /-- A condition on the characters before and after the position. -/
  | assert (p : Option Char → Option Char → Bool)

namespace RegExp

/-! ## Patterns -/

/-- `r+`. -/
def plus (r : RegExp) : RegExp := seq r (star r)

/-- `r?`, for an `r` that does not match the empty text. -/
def opt (r : RegExp) : RegExp := alt r empty

/-- `r{1,n}`. -/
def upTo (r : RegExp) : Nat → RegExp
  | 0 => empty
  | 1 => r
  | n + 1 => seq r (opt (upTo r n))

def concat (rs : List RegExp) : RegExp := rs.foldr seq empty

/-- `r₁|…|rₙ` of at least one pattern. -/
def choice : List RegExp → RegExp
  | [] => assert fun _ _ => false
  | [r] => r
  | r :: rs => alt r (choice rs)

/-- A text as a pattern. -/
def literal (s : String) : RegExp := concat (s.toList.map fun c => char (· == c))

/-- An ASCII text as a pattern under the flag `i`. -/
def literalIgnoreCase (s : String) : RegExp :=
  concat (s.toList.map fun c => char fun d => d.toLower == c.toLower)

/-- `\s`. -/
def space : RegExp := char isSpace

/-- `\d`. -/
def digit : RegExp := char isDigit

/-- The class `\w`. -/
def isWord (c : Char) : Bool :=
  isDigit c || ('a' ≤ c && c ≤ 'z') || ('A' ≤ c && c ≤ 'Z') || c == '_'

/-- `\b`. -/
def wordBoundary : RegExp := assert fun b a => b.any isWord != a.any isWord

def isLineTerminator (c : Char) : Bool := [0xA, 0xD, 0x2028, 0x2029].contains c.toNat

/-- `^` without the flag `m`. -/
def textStart : RegExp := assert fun b _ => b.isNone

/-- `^` under the flag `m`. -/
def lineStart : RegExp := assert fun b _ => b.all isLineTerminator

/-- `$` under the flag `m`. -/
def lineEnd : RegExp := assert fun _ a => a.all isLineTerminator

/-! ## Matching -/

/-- `r*` for the matcher `m` of `r`: as often as possible, each time with at least one character. -/
def repeatRun (m : Cursor → (Cursor → Option Cursor) → Option Cursor) :
    Nat → Cursor → (Cursor → Option Cursor) → Option Cursor
  | 0, c, k => k c
  | fuel + 1, c, k =>
    (m c fun c' => if c'.after.length = c.after.length then none else repeatRun m fuel c' k).or (k c)

/-- The end of the first match of `r` from `c` after which `k` succeeds. -/
def run : RegExp → Cursor → (Cursor → Option Cursor) → Option Cursor
  | empty, c, k => k c
  | char p, c, k =>
    match c.after with
    | [] => none
    | x :: xs => if p x then k { c with before := x :: c.before, after := xs } else none
  | seq r s, c, k => r.run c fun c' => s.run c' k
  | alt r s, c, k => (r.run c k).or (s.run c k)
  -- every repetition takes a character, so there are at most as many as characters
  | star r, c, k => repeatRun r.run c.after.length c k
  | group n r, c, k => r.run c fun c' =>
      k { c' with groups := (n, c.after.take (c.after.length - c'.after.length)) :: c'.groups }
  | assert p, c, k => if p c.before.head? c.after.head? then k c else none

/-- A match: its text and the groups captured in it. -/
structure Match where
  text : String
  groups : List (Nat × List Char)

/-- The text of group `n`, if it took part in the match. -/
def Match.group? (m : Match) (n : Nat) : Option String := (m.groups.lookup n).map String.ofList

/-- The match of `r` at `c`, and where it ends. -/
def matchAt (r : RegExp) (c : Cursor) : Option (Match × Cursor) :=
  (r.run { c with groups := [] } some).map fun c' =>
    (⟨String.ofList (c.after.take (c.after.length - c'.after.length)), c'.groups⟩, c')

/-- `re.test(s)` from a position on. -/
def testFrom (r : RegExp) : List Char → List Char → Bool
  | before, [] => (r.matchAt ⟨before, [], []⟩).isSome
  | before, x :: xs => (r.matchAt ⟨before, x :: xs, []⟩).isSome || testFrom r (x :: before) xs

/-- `re.test(s)`. -/
def test (r : RegExp) (s : String) : Bool := r.testFrom [] s.toList

/-- The text from a position on with the first match replaced. -/
def replaceFirstFrom (r : RegExp) (f : Match → String) : List Char → List Char → List Char
  | before, [] =>
    match r.matchAt ⟨before, [], []⟩ with
    | some (m, _) => (f m).toList
    | none => []
  | before, x :: xs =>
    match r.matchAt ⟨before, x :: xs, []⟩ with
    | some (m, c) => (f m).toList ++ c.after
    | none => x :: replaceFirstFrom r f (x :: before) xs

/-- `s.replace(re, f)` without the flag `g`. -/
def replaceFirst (r : RegExp) (f : Match → String) (s : String) : String :=
  String.ofList (r.replaceFirstFrom f [] s.toList)

/-- The text from a position on with every match replaced; after an empty match the search goes on
one character further. -/
def replaceAllFrom (r : RegExp) (f : Match → String) : Nat → List Char → List Char → List Char
  | 0, _, after => after
  | fuel + 1, before, after =>
    match r.matchAt ⟨before, after, []⟩, after with
    | some (m, c), [] => (f m).toList ++ c.after
    | none, [] => []
    | some (m, c), x :: xs =>
      if c.after.length = (x :: xs).length then
        (f m).toList ++ x :: replaceAllFrom r f fuel (x :: before) xs
      else (f m).toList ++ replaceAllFrom r f fuel c.before c.after
    | none, x :: xs => x :: replaceAllFrom r f fuel (x :: before) xs

/-- `s.replace(re, f)` under the flag `g`. -/
def replaceAll (r : RegExp) (f : Match → String) (s : String) : String :=
  String.ofList (r.replaceAllFrom f (s.toList.length + 1) [] s.toList)

end RegExp

/-! ## Patterns with one way to match -/

/-- The position behind the text `w`, with `rest` behind it. -/
def Cursor.move (c : Cursor) (w rest : List Char) : Cursor :=
  { c with before := w.reverse ++ c.before, after := rest }

@[simp] theorem Cursor.after_move (c : Cursor) (w rest : List Char) : (c.move w rest).after = rest := rfl

theorem Cursor.move_move (c : Cursor) (w w' rest rest' : List Char) :
    (c.move w rest).move w' rest' = c.move (w ++ w') rest' := by
  simp [Cursor.move]

namespace RegExp

variable {r s : RegExp} {f g : Cursor → Option Cursor} {k : Cursor → Option Cursor} {c d : Cursor}

/-- `r` matches at a position in at most one way, up to where `f` says. -/
def Deterministic (r : RegExp) (f : Cursor → Option Cursor) : Prop := ∀ c k, r.run c k = (f c).bind k

theorem deterministic_empty : Deterministic .empty some := fun _ _ => rfl

theorem deterministic_seq (hr : Deterministic r f) (hs : Deterministic s g) :
    Deterministic (.seq r s) fun c => (f c).bind g := by
  intro c k
  rw [run, hr c, Option.bind_assoc]
  exact congrArg _ (funext fun c' => hs c' k)

/-! ## Texts -/

/-- A character of a class. -/
def stepChar (p : Char → Bool) (c : Cursor) : Option Cursor :=
  match c.after with
  | [] => none
  | x :: xs => if p x then some (c.move [x] xs) else none

theorem deterministic_char (p : Char → Bool) : Deterministic (.char p) (stepChar p) := by
  intro c k
  rw [run, stepChar]
  cases c.after with
  | nil => rfl
  | cons x xs =>
    dsimp only
    split <;> rfl

/-- The characters of a text, one after the other. -/
def stepText : List Char → Cursor → Option Cursor
  | [], c => some c
  | x :: w, c => (stepChar (· == x) c).bind (stepText w)

theorem deterministic_text (w : List Char) :
    Deterministic (concat (w.map fun x => char (· == x))) (stepText w) := by
  induction w with
  | nil => exact deterministic_empty
  | cons x w ih => exact deterministic_seq (deterministic_char _) ih

theorem deterministic_literal (t : String) : Deterministic (literal t) (stepText t.toList) := deterministic_text _

theorem stepText_append {w rest : List Char} (h : c.after = w ++ rest) : stepText w c = some (c.move w rest) := by
  induction w generalizing c with
  | nil =>
    rw [List.nil_append] at h
    rw [stepText, ← h]
    rfl
  | cons x w ih =>
    have hstep : stepChar (· == x) c = some (c.move [x] (w ++ rest)) := by
      rw [stepChar, h, List.cons_append]
      exact if_pos (beq_self_eq_true x)
    rw [stepText, hstep, Option.bind_some, ih (c.after_move _ _), Cursor.move_move]
    rfl

theorem exists_of_stepText {w : List Char} (h : stepText w c = some d) :
    ∃ rest, c.after = w ++ rest ∧ d = c.move w rest := by
  induction w generalizing c with
  | nil =>
    obtain rfl := Option.some.inj h
    exact ⟨c.after, rfl, rfl⟩
  | cons x w ih =>
    obtain ⟨c', hstep, hrest⟩ := Option.bind_eq_some_iff.mp h
    obtain ⟨rest, hafter, rfl⟩ := ih hrest
    rw [stepChar] at hstep
    split at hstep
    · cases hstep
    · next y ys hys =>
      split at hstep
      · next hy =>
        obtain rfl := Option.some.inj hstep
        rw [Cursor.after_move] at hafter
        refine ⟨rest, by rw [hys, hafter, eq_of_beq hy]; rfl, ?_⟩
        rw [Cursor.move_move, eq_of_beq hy]
        rfl
      · cases hstep

/-! ## Repetitions -/

/-- From `c` to `d` in steps of `f`, as many as there are. -/
inductive Exhausts (f : Cursor → Option Cursor) : Cursor → Cursor → Prop
  | stop {c : Cursor} (h : f c = none) : Exhausts f c c
  | step {c c' d : Cursor} (h : f c = some c') (h' : Exhausts f c' d) : Exhausts f c d

/-- A repetition takes all it can when the rest cannot start before another repetition. -/
theorem run_star (hr : Deterministic r f) (hshrink : ∀ {c c'}, f c = some c' → c'.after.length < c.after.length)
    (hk : ∀ {c c'}, f c = some c' → k c = none) (h : Exhausts f c d) : (star r).run c k = k d := by
  have hrun : ∀ fuel, c.after.length ≤ fuel → repeatRun r.run fuel c k = k d := by
    induction h with
    | @stop c hstop =>
      intro fuel hfuel
      cases fuel with
      | zero => rfl
      | succ fuel => rw [repeatRun, hr c, hstop, Option.bind_none, Option.none_or]
    | @step c c' d hstep _ ih =>
      intro fuel hfuel
      have hlt := hshrink hstep
      obtain ⟨fuel, rfl⟩ : ∃ n, fuel = n + 1 := ⟨fuel - 1, by omega⟩
      rw [repeatRun, hr c, hstep, Option.bind_some, if_neg (by omega), ih fuel (by omega), hk hstep, Option.or_none]
  exact hrun _ (Nat.le_refl _)

theorem exists_exhausts (hshrink : ∀ {c c'}, f c = some c' → c'.after.length < c.after.length) (c : Cursor) :
    ∃ d, Exhausts f c d := by
  induction hlength : c.after.length using Nat.strong_induction_on generalizing c with
  | _ length ih =>
    cases hstep : f c with
    | none => exact ⟨c, .stop hstep⟩
    | some c' =>
      obtain ⟨d, hd⟩ := ih c'.after.length (hlength ▸ hshrink hstep) c' rfl
      exact ⟨d, .step hstep hd⟩

/-- The position behind the longest run of a class. -/
def span (p : Char → Bool) (c : Cursor) : Cursor := c.move (c.after.takeWhile p) (c.after.dropWhile p)

theorem length_stepChar {p : Char → Bool} (h : stepChar p c = some d) : d.after.length < c.after.length := by
  rw [stepChar] at h
  split at h
  · cases h
  · next x xs hxs =>
    split at h
    · obtain rfl := Option.some.inj h
      rw [hxs, Cursor.after_move, List.length_cons]
      omega
    · cases h

theorem exhausts_span (p : Char → Bool) (c : Cursor) : Exhausts (stepChar p) c (span p c) := by
  obtain ⟨before, after, groups⟩ := c
  induction after generalizing before with
  | nil => exact .stop rfl
  | cons x xs ih =>
    by_cases hx : p x = true
    · have hstep : stepChar p ⟨before, x :: xs, groups⟩ = some ⟨x :: before, xs, groups⟩ := if_pos hx
      have hspan : span p ⟨before, x :: xs, groups⟩ = span p ⟨x :: before, xs, groups⟩ := by
        simp [span, Cursor.move, hx]
      rw [hspan]
      exact .step hstep (ih (x :: before))
    · have hspan : span p ⟨before, x :: xs, groups⟩ = ⟨before, x :: xs, groups⟩ := by
        simp [span, Cursor.move, hx]
      rw [hspan]
      exact .stop (if_neg hx)

/-- A run of a class up to a character outside it. -/
theorem deterministic_span {p q : Char → Bool} (hdisjoint : ∀ x, p x = true → q x = false) :
    Deterministic (concat [star (.char p), .char q]) fun c => stepChar q (span p c) := by
  intro c k
  change (star (.char p)).run c (fun c' => (seq (.char q) .empty).run c' k) = _
  have hrest : ∀ c', (seq (.char q) .empty).run c' k = (stepChar q c').bind k := by
    intro c'
    rw [deterministic_seq (deterministic_char q) deterministic_empty c' k]
    simp
  simp only [hrest]
  refine run_star (deterministic_char p) length_stepChar (fun {c c'} hstep => ?_) (exhausts_span p c)
  rw [stepChar] at hstep ⊢
  split at hstep
  · cases hstep
  · next x xs hxs =>
    split at hstep
    · next hx =>
      simp [hdisjoint x hx]
    · cases hstep

end RegExp

end Js
