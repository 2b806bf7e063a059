import PrReviewer.Js.NumberText

/-!
# Python's text of a float (`evidence/pyjson.ts`, `pyFloatRepr`)

`pyFloatRepr value` is `float.__repr__`: the digits of `value.toExponential()` in Python's layout, with an exponent
outside `[1e-4, 1e16)` and a `.0` on whole values. `exists_parts` says what the parts of such a text are, and so what
a reader of numbers makes of it.
-/

open Float.Model Float.Model.UnpackedFloat List

namespace PrReviewer.Evidence

open Js Js.Json Js.Number

def padStart (n : Nat) (c : Char) (cs : List Char) : List Char := List.replicate (n - cs.length) c ++ cs

def padEnd (n : Nat) (c : Char) (cs : List Char) : List Char := cs ++ List.replicate (n - cs.length) c

/-- `x.toExponential()` of a positive number: its digits, and the exponent of the first one. -/
def toExponential (x : Number) : List Char × Int :=
  let (num, den) := x.fraction
  let (s, q) := shortest x num den (magnitude num den) 16 1
  let (s, q) := stripZeros 17 s q
  (Nat.toDigits 10 s, (Nat.toDigits 10 s).length + q - 1)

/-- The digits of a number in Python's layout. -/
def pyLayout (digits : List Char) (exponent : Int) : List Char :=
  if exponent < -4 ∨ 16 ≤ exponent then
    let frac := if 1 < digits.length then digits.take 1 ++ '.' :: digits.drop 1 else digits
    frac ++ 'e' :: (if exponent < 0 then '-' else '+') :: padStart 2 '0' (Nat.toDigits 10 exponent.natAbs)
  else if exponent < 0 then '0' :: '.' :: (List.replicate (-exponent - 1).toNat '0' ++ digits)
  else
    let intPart := padEnd (exponent.toNat + 1) '0' (digits.take (exponent.toNat + 1))
    let fracPart := digits.drop (exponent.toNat + 1)
    intPart ++ '.' :: (if fracPart = [] then ['0'] else fracPart)

/-- `Object.is(value, -0)`. -/
def isNegativeZero (x : Number) : Bool :=
  match x.toModel.unpack with
  | .zero .negative => true
  | _ => false

def positiveRepr (x : Number) : List Char := pyLayout (toExponential x).1 (toExponential x).2

def pyFloatRepr (value : Number) : String :=
  if value.isNaN then "nan"
  else if !value.isFinite then if 0 < value then "inf" else "-inf"
  else if value == 0 then if isNegativeZero value then "-0.0" else "0.0"
  else String.ofList (signText (value < 0) ++ positiveRepr (if value < 0 then -value else value))

/-! ## The parts of the text -/

/-- The exponent as Python writes it, with at least two digits. -/
def exponentTail : Option Int → List Char
  | none => []
  | some e => 'e' :: (if e < 0 then '-' else '+') :: padStart 2 '0' (Nat.toDigits 10 e.natAbs)

/-- The text has these parts, and they stand for `s * 10 ^ q`. A float has a fraction or an exponent. -/
structure HasParts (s : Nat) (q : Int) (cs whole fraction : List Char) (exponent : Option Int) : Prop where
  text : cs = whole ++ (fractionText fraction ++ exponentTail exponent)
  whole_ne : whole ≠ []
  whole_digits : ∀ c ∈ whole, c.isDigit = true
  whole_zero : whole.head? = some '0' → whole = ['0']
  fraction_digits : ∀ c ∈ fraction, c.isDigit = true
  float : fraction ≠ [] ∨ exponent ≠ none
  value : decimalValue (Nat.ofDigitChars 10 (whole ++ fraction) 0) (exponent.getD 0 - fraction.length) =
    decimalValue s q
  bound : -2048 ≤ exponent.getD 0 - (fraction.length : ℤ)

theorem HasParts.of_standFor {s : Nat} {q : ℤ} {whole fraction cs : List Char} {exponent : Option ℤ}
    (h : StandFor s q whole fraction exponent) (hfloat : fraction ≠ [] ∨ exponent ≠ none)
    (htext : cs = whole ++ (fractionText fraction ++ exponentTail exponent)) : HasParts s q cs whole fraction exponent :=
  ⟨htext, h.whole_ne, h.whole_digits, h.whole_zero, h.fraction_digits, hfloat, h.value, h.bound⟩

/-- Every layout of the digits of a number. -/
theorem exists_parts_pyLayout {s : Nat} {q : ℤ} (hs : 0 < s) (hq : -1000 ≤ q)
    (hlength : (Nat.toDigits 10 s).length ≤ 18) :
    ∃ whole fraction exponent,
      HasParts s q (pyLayout (Nat.toDigits 10 s) ((Nat.toDigits 10 s).length + q - 1)) whole fraction exponent := by
  obtain ⟨hdigits, hne, hzero, hvalue⟩ := toDigits_spec hs
  have hpos : 0 < (Nat.toDigits 10 s).length := length_pos_iff.mpr hne
  unfold pyLayout
  dsimp only
  split
  · -- an exponent
    next hexponent =>
    refine ⟨_, _, _, .of_standFor (standFor_split (e := some (((Nat.toDigits 10 s).length : ℤ) + q - 1)) hs hq
      (n := 1) Nat.one_pos ?_) (.inr (by simp)) ?_⟩
    · rw [length_drop, Option.getD_some]
      omega
    · rw [exponentTail, ← append_assoc]
      congr 1
      split
      · next hmany =>
        rw [fractionText_of_ne fun hnil => Nat.not_le.mpr hmany (drop_eq_nil_iff.mp hnil)]
      · next hone =>
        rw [drop_of_length_le (by omega), take_of_length_le (by omega), fractionText, append_nil]
  split
  · -- zeros behind the decimal point
    next hexponent hsmall =>
    have hfraction : List.replicate (-(((Nat.toDigits 10 s).length : ℤ) + q - 1) - 1).toNat '0' ++ Nat.toDigits 10 s ≠
        [] := append_ne_nil_of_right_ne_nil _ hne
    refine ⟨_, _, _, .of_standFor (standFor_zeros hs hq (by omega)) (.inl hfraction) ?_⟩
    rw [fractionText_of_ne hfraction, exponentTail, append_nil]
    rfl
  · next hexponent hlarge =>
    obtain ⟨n, hn⟩ : ∃ n : ℕ, ((Nat.toDigits 10 s).length : ℤ) + q = n :=
      ⟨(((Nat.toDigits 10 s).length : ℤ) + q).toNat, by omega⟩
    have hcount : (((Nat.toDigits 10 s).length : ℤ) + q - 1).toNat + 1 = n := by omega
    rw [hcount]
    by_cases hshort : (Nat.toDigits 10 s).length ≤ n
    · -- a whole number
      rw [padEnd, take_of_length_le hshort, drop_of_length_le hshort, if_pos rfl]
      obtain ⟨t, rfl⟩ : ∃ t : ℕ, q = t := ⟨q.toNat, by omega⟩
      have ht : n - (Nat.toDigits 10 s).length = t := by omega
      have hone : Nat.ofDigitChars 10 ['0'] (10 ^ t * s) = 10 * (10 ^ t * s) := by simp [Nat.ofDigitChars]
      rw [ht]
      refine ⟨Nat.toDigits 10 s ++ List.replicate t '0', ['0'], none,
        .of_standFor ⟨by simp [hne], ?_, ?_, by simp, ?_, by simp⟩ (.inl (by simp)) ?_⟩
      · rw [forall_mem_append]
        exact ⟨hdigits, isDigit_zeros t⟩
      · rw [List.head?_append_of_ne_nil _ hne]
        exact fun h => absurd h hzero
      · rw [Nat.ofDigitChars_append, Nat.ofDigitChars_append, hvalue, Nat.ofDigitChars_replicate_zero, hone,
          decimalValue, decimalValue, Option.getD_none, length_singleton, zpow_natCast]
        push_cast
        norm_num
        ring
      · rw [exponentTail, fractionText_of_ne (by simp), append_nil]
    · -- a decimal point among the digits
      have hfraction : (Nat.toDigits 10 s).drop n ≠ [] := fun hnil => hshort (drop_eq_nil_iff.mp hnil)
      rw [padEnd, length_take, Nat.min_eq_left (by omega), Nat.sub_self, replicate_zero, append_nil,
        if_neg hfraction]
      refine ⟨_, _, none, .of_standFor (standFor_split hs hq (n := n) (by omega) ?_) (.inl hfraction) ?_⟩
      · rw [length_drop, Option.getD_none]
        omega
      · rw [fractionText_of_ne hfraction, exponentTail, append_nil]

/-- What the digits of a positive number are in Python's layout. -/
theorem exists_parts {x : Number} {m : Nat} {e : ℤ} {hm : 0 < m} (hx : x.toModel.unpack = .finite .positive m e hm) :
    ∃ s q whole fraction exponent, 0 < s ∧ -2048 ≤ q ∧ (ofDecimal s q == x) = true ∧
      HasParts s q (positiveRepr x) whole fraction exponent := by
  obtain ⟨s, q, hs, hq, -, hlength, hread, s', q', hshortest, hstrip⟩ := exists_digits hx
  obtain ⟨whole, fraction, exponent, hparts⟩ := exists_parts_pyLayout hs hq hlength
  have hdigits : toExponential x = (Nat.toDigits 10 s, (Nat.toDigits 10 s).length + q - 1) := by
    rw [toExponential]
    dsimp only
    rw [hshortest]
    dsimp only
    rw [hstrip]
  refine ⟨s, q, whole, fraction, exponent, hs, by omega, hread, ?_⟩
  rwa [positiveRepr, hdigits]

/-! ## Reading the text -/

section

variable {rest : List Char}

theorem exponentPart_exponentTail (exponent : Option ℤ) (hrest : Ends rest) :
    exponentPart (exponentTail exponent ++ rest) = some (exponent, rest) := by
  cases exponent with
  | none => exact exponentPart_of_ends hrest
  | some e =>
    have hsign : (if e < 0 then '-' else '+') = if decide (e < 0) then '-' else '+' := by
      simp only [decide_eq_true_eq]
    rw [exponentTail, hsign, cons_append, cons_append, exponentPart_sign _ _ _ hrest, padStart,
      Nat.ofDigitChars_append, Nat.ofDigitChars_replicate_zero, mul_zero, Nat.ofDigitChars_ten_toDigits, natAbs_sign]
    · rw [padStart]
      exact append_ne_nil_of_right_ne_nil _ Nat.toDigits_ne_nil
    · rw [padStart, forall_mem_append]
      exact ⟨isDigit_zeros _, fun c => isDigit_of_mem⟩

/-- A float is read as a number, never as a count. -/
theorem ofParts_float {negative : Bool} {whole fraction : List Char} {exponent : Option ℤ}
    (h : fraction ≠ [] ∨ exponent ≠ none) : ∃ y, ofParts negative whole fraction exponent = .number y := by
  unfold ofParts
  dsimp only
  rw [if_neg]
  · exact ⟨_, rfl⟩
  · rintro ⟨-, hfraction, hexponent, -⟩
    rcases h with h | h
    · exact h hfraction
    · exact h hexponent

/-- JSON reads the text of a positive number, behind a sign or not, as that number. -/
theorem number_positiveRepr {x : Number} {m : Nat} {e : ℤ} {hm : 0 < m}
    (hx : x.toModel.unpack = .finite .positive m e hm) (negative : Bool) :
    ∃ y, (y == if negative then -x else x) = true ∧
      ∀ rest, Ends rest → number (signText negative ++ positiveRepr x ++ rest) = some (.number y, rest) := by
  obtain ⟨s, q, whole, fraction, exponent, hs, hq, hread, hparts⟩ := exists_parts hx
  obtain ⟨y, hy⟩ := @ofParts_float negative whole fraction exponent hparts.float
  have hnumber := isNumber_ofParts negative hx hs hq hread hparts.value hparts.bound
  rw [hy] at hnumber
  cases hnumber with
  | number hsame =>
    refine ⟨y, hsame, fun rest hrest => ?_⟩
    rw [hparts.text, ← hy, append_assoc, append_assoc, append_assoc]
    exact number_of_parts negative hparts.whole_ne hparts.whole_digits hparts.whole_zero hparts.fraction_digits
      (exponentPart_exponentTail exponent hrest) (exponent_head (by cases exponent <;> simp [exponentTail]) hrest)

/-- A finite number is 0, or its text is that of a positive one behind a sign or not. -/
theorem pyFloatRepr_cases {x : Number} (hfinite : x.isFinite = true) :
    (x == 0) = true ∧ (pyFloatRepr x).toList = signText (isNegativeZero x) ++ ['0', '.', '0'] ∨
      ∃ y m e hm, y.toModel.unpack = .finite .positive m e hm ∧ ∃ negative : Bool,
        (pyFloatRepr x).toList = signText negative ++ positiveRepr y ∧ ((if negative then -y else y) == x) = true := by
  have hnan := not_isNaN_of_isFinite hfinite
  rcases finite_form hfinite with hzero | ⟨hzero, -, m, e, hm, hu, hsame⟩
  · refine .inl ⟨hzero, ?_⟩
    simp only [pyFloatRepr, hnan, hfinite, hzero, Bool.false_eq_true, if_false, Bool.not_true, if_true]
    cases isNegativeZero x <;> rfl
  · refine .inr ⟨_, m, e, hm, hu, decide (x < 0), ?_, hsame⟩
    simp only [pyFloatRepr, hnan, hfinite, hzero, Bool.false_eq_true, if_false, Bool.not_true, String.toList_ofList]

theorem ofParts_zero (negative : Bool) : ∃ y, ofParts negative ['0'] ['0'] none = .number y ∧ (y == 0) = true := by
  cases negative
  · exact ⟨_, rfl, by decide +kernel⟩
  · exact ⟨_, rfl, by decide +kernel⟩

/-- JSON reads the text of a finite number as that number. -/
theorem number_pyFloatRepr {x : Number} (hfinite : x.isFinite = true) :
    ∃ y, (y == x) = true ∧
      ∀ rest, Ends rest → number ((pyFloatRepr x).toList ++ rest) = some (.number y, rest) := by
  rcases pyFloatRepr_cases hfinite with ⟨hzero, htext⟩ | ⟨z, m, e, hm, hz, negative, htext, hsame⟩
  · obtain ⟨y, hy, hyzero⟩ := ofParts_zero (isNegativeZero x)
    refine ⟨y, beq_of_beq (beq_swap hyzero) (beq_swap hzero), fun rest hrest => ?_⟩
    rw [htext, ← hy, append_assoc]
    exact @number_of_parts rest ['0'] ['0'] rest none (isNegativeZero x) nofun (by simp) (fun _ => rfl) (by simp)
      (exponentPart_of_ends hrest) fun c hc => ⟨(hrest c hc).1, (hrest c hc).2.1⟩
  · obtain ⟨y, hy, hread⟩ := number_positiveRepr hz negative
    exact ⟨y, beq_of_beq (beq_swap hy) hsame, fun rest hrest => by rw [htext, hread rest hrest]⟩

end

end PrReviewer.Evidence
