import PrReviewer.Js.Count
import PrReviewer.Js.Decimal
import PrReviewer.Js.Digits

/-!
# The text of a number reads back

JSON reads the text of a finite number as that number (`number_numberToString`), in each of the layouts that
`Number::toString` has. So two finite numbers have one text exactly when they are equal (`numberToString_eq_iff`).
-/

open Float.Model Float.Model.UnpackedFloat List

namespace Js

/-- The value stands for the number. -/
inductive IsNumber (x : Number) : Value → Prop
  | count {n : Nat} (h : (Number.ofNat n == x) = true) : IsNumber x (.count n)
  | number {y : Number} (h : (y == x) = true) : IsNumber x (.number y)

namespace Json

/-! ## The parts of a number -/

/-- The digits behind the decimal point, if there are some. -/
def fractionText : List Char → List Char
  | [] => []
  | ds => '.' :: ds

theorem fractionText_of_ne {ds : List Char} (h : ds ≠ []) : fractionText ds = '.' :: ds := by
  cases ds with
  | nil => exact absurd rfl h
  | cons c cs => rfl

/-- The exponent, with its sign. -/
def exponentText : Option ℤ → List Char
  | none => []
  | some e => 'e' :: (if 0 ≤ e then '+' else '-') :: Nat.toDigits 10 e.natAbs

/-- The sign of a negative number. -/
def signText (negative : Bool) : List Char := if negative then ['-'] else []

theorem signText_false : signText false = [] := rfl

theorem signText_true : signText true = ['-'] := rfl

/-- What the parts of a number are read as. -/
def ofParts (negative : Bool) (whole fraction : List Char) (exponent : Option ℤ) : Value :=
  let n := Nat.ofDigitChars 10 (whole ++ fraction) 0
  if negative = false ∧ fraction = [] ∧ exponent = none ∧ n < 2 ^ 53 then .count n
  else
    let x := Number.ofDecimal n (exponent.getD 0 - fraction.length)
    .number (if negative then -x else x)

section Parts

variable {ds rest : List Char}

theorem takeWhile_append (hds : ∀ c ∈ ds, c.isDigit = true) (hrest : ∀ c ∈ rest.head?, c.isDigit = false) :
    (ds ++ rest).takeWhile Char.isDigit = ds ∧ (ds ++ rest).dropWhile Char.isDigit = rest := by
  rw [takeWhile_append_of_pos hds, dropWhile_append_of_pos hds]
  cases rest with
  | nil => exact ⟨by simp, rfl⟩
  | cons c rest =>
    have hc := hrest c rfl
    rw [takeWhile_cons_of_neg (by simp [hc]), dropWhile_cons_of_neg (by simp [hc]), append_nil]
    exact ⟨rfl, rfl⟩

/-- Behind a number there is no exponent. -/
theorem exponentPart_of_ends (hrest : Ends rest) : exponentPart rest = some (none, rest) := by
  unfold exponentPart
  split
  · rfl
  · next e cs =>
    have he := (hrest e rfl).2.2
    rw [if_neg (by simp [he])]

/-- An exponent is read with its sign, however many digits it has. -/
theorem exponentPart_sign (negative : Bool) (hne : ds ≠ []) (hdigits : ∀ c ∈ ds, c.isDigit = true) (hrest : Ends rest) :
    exponentPart ('e' :: (if negative then '-' else '+') :: (ds ++ rest)) =
      some (some (if negative then -(Nat.ofDigitChars 10 ds 0 : ℤ) else Nat.ofDigitChars 10 ds 0), rest) := by
  obtain ⟨htake, hdrop⟩ := takeWhile_append hdigits fun c hc => (hrest c hc).1
  unfold exponentPart
  dsimp only
  rw [if_pos (.inl rfl)]
  cases negative <;> simp [htake, hdrop, hne]

theorem natAbs_sign (e : ℤ) : (if decide (e < 0) then -(e.natAbs : ℤ) else e.natAbs) = e := by
  simp only [decide_eq_true_eq]
  split <;> omega

theorem exponentPart_exponentText (exponent : Option ℤ) (hrest : Ends rest) :
    exponentPart (exponentText exponent ++ rest) = some (exponent, rest) := by
  cases exponent with
  | none => exact exponentPart_of_ends hrest
  | some e =>
    have hsign : (if 0 ≤ e then '+' else '-') = if decide (e < 0) then '-' else '+' := by
      by_cases he : 0 ≤ e <;> simp [he, Int.not_lt.mpr, Int.lt_of_not_ge]
    rw [exponentText, hsign, cons_append, cons_append,
      exponentPart_sign _ Nat.toDigits_ne_nil (fun c => isDigit_of_mem) hrest, Nat.ofDigitChars_ten_toDigits, natAbs_sign]

theorem exponent_head {text : List Char} (htext : ∀ c ∈ text.head?, c = 'e') (hrest : Ends rest) :
    ∀ c ∈ (text ++ rest).head?, c.isDigit = false ∧ c ≠ '.' := by
  cases text with
  | nil => exact fun c hc => ⟨(hrest c hc).1, (hrest c hc).2.1⟩
  | cons d text =>
    intro c hc
    obtain rfl := (Option.some.inj hc).symm.trans (htext d rfl)
    decide

theorem fractionPart_fractionText {fraction : List Char} (hdigits : ∀ c ∈ fraction, c.isDigit = true)
    (hrest : ∀ c ∈ rest.head?, c.isDigit = false ∧ c ≠ '.') :
    fractionPart (fractionText fraction ++ rest) = some (fraction, rest) := by
  cases fraction with
  | nil =>
    rw [fractionText, nil_append]
    unfold fractionPart
    split
    · exact absurd rfl (hrest _ rfl).2
    · rfl
  | cons c cs =>
    obtain ⟨htake, hdrop⟩ := takeWhile_append hdigits fun c hc => (hrest c hc).1
    rw [fractionText, cons_append, fractionPart]
    · rw [htake, hdrop, if_neg (cons_ne_nil c cs)]
    · nofun

/-- The parts of a number are read one behind the other, the exponent in any form that is read. -/
theorem number_of_parts {whole fraction behind : List Char} {exponent : Option ℤ} (negative : Bool) (hne : whole ≠ [])
    (hwhole : ∀ c ∈ whole, c.isDigit = true) (hzero : whole.head? = some '0' → whole = ['0'])
    (hfraction : ∀ c ∈ fraction, c.isDigit = true) (hread : exponentPart behind = some (exponent, rest))
    (hexponent : ∀ c ∈ behind.head?, c.isDigit = false ∧ c ≠ '.') :
    number (signText negative ++ (whole ++ (fractionText fraction ++ behind))) =
      some (ofParts negative whole fraction exponent, rest) := by
  have hbehind : ∀ c ∈ (fractionText fraction ++ behind).head?, c.isDigit = false := by
    cases fraction with
    | nil => exact fun c hc => (hexponent c hc).1
    | cons d ds =>
      intro c hc
      obtain rfl : '.' = c := Option.some.inj hc
      decide
  obtain ⟨htake, hdrop⟩ := takeWhile_append hwhole hbehind
  obtain ⟨text, htext⟩ : ∃ text, text = whole ++ (fractionText fraction ++ behind) := ⟨_, rfl⟩
  have hfirst : (text.head? == some '-') = false := by
    rw [htext, List.head?_append_of_ne_nil _ hne, beq_eq_false_iff_ne]
    intro hhead
    exact absurd (hwhole _ (List.mem_of_mem_head? hhead)) (by decide)
  have hsign : ((signText negative ++ text).head? == some '-') = negative ∧
      (if negative = true then (signText negative ++ text).tail else signText negative ++ text) = text := by
    cases negative with
    | false => exact ⟨hfirst, rfl⟩
    | true => exact ⟨rfl, rfl⟩
  have hform : ¬(whole = [] ∨ (whole.head? = some '0' ∧ whole ≠ ['0'])) := by
    rintro (hnil | ⟨hhead, hother⟩)
    · exact hne hnil
    · exact hother (hzero hhead)
  rw [← htext] at htake hdrop ⊢
  unfold number ofParts
  dsimp only
  rw [hsign.1, hsign.2, htake, hdrop, if_neg hform, fractionPart_fractionText hfraction hexponent]
  simp only [Option.bind_eq_bind, Option.bind_some, hread]
  split <;> rfl

/-- The parts of a number are read one behind the other. -/
theorem number_parts {whole fraction : List Char} {exponent : Option ℤ} (negative : Bool) (hne : whole ≠ [])
    (hwhole : ∀ c ∈ whole, c.isDigit = true) (hzero : whole.head? = some '0' → whole = ['0'])
    (hfraction : ∀ c ∈ fraction, c.isDigit = true) (hrest : Ends rest) :
    number (signText negative ++ (whole ++ (fractionText fraction ++ (exponentText exponent ++ rest)))) =
      some (ofParts negative whole fraction exponent, rest) :=
  number_of_parts negative hne hwhole hzero hfraction (exponentPart_exponentText exponent hrest)
    (exponent_head (by cases exponent <;> simp [exponentText]) hrest)

end Parts

end Json

/-! ## The layouts -/

namespace Number

open Json

/-- A text that JSON reads as the number `s * 10 ^ q` is read as. -/
def ReadsAs (s : Nat) (q : ℤ) (cs : List Char) : Prop :=
  ∃ whole fraction exponent, (∀ rest, cs ++ rest = whole ++ (fractionText fraction ++ (exponentText exponent ++ rest))) ∧
    whole ≠ [] ∧ (∀ c ∈ whole, c.isDigit = true) ∧ (whole.head? = some '0' → whole = ['0']) ∧
    (∀ c ∈ fraction, c.isDigit = true) ∧
    decimalValue (Nat.ofDigitChars 10 (whole ++ fraction) 0) (exponent.getD 0 - fraction.length) = decimalValue s q ∧
    -2048 ≤ exponent.getD 0 - (fraction.length : ℤ)

theorem isDigit_zeros (n : Nat) : ∀ c ∈ List.replicate n '0', c.isDigit = true := fun c hc => by
  rw [eq_of_mem_replicate hc]
  rfl

/-- The digits of these parts of a number stand for `s * 10 ^ q`. -/
structure StandFor (s : Nat) (q : ℤ) (whole fraction : List Char) (exponent : Option ℤ) : Prop where
  whole_ne : whole ≠ []
  whole_digits : ∀ c ∈ whole, c.isDigit = true
  whole_zero : whole.head? = some '0' → whole = ['0']
  fraction_digits : ∀ c ∈ fraction, c.isDigit = true
  value : decimalValue (Nat.ofDigitChars 10 (whole ++ fraction) 0) (exponent.getD 0 - fraction.length) =
    decimalValue s q
  bound : -2048 ≤ exponent.getD 0 - (fraction.length : ℤ)

section Layouts

variable {s : Nat} {q : ℤ}

theorem toDigits_spec (hs : 0 < s) : (∀ c ∈ Nat.toDigits 10 s, c.isDigit = true) ∧ Nat.toDigits 10 s ≠ [] ∧
    (Nat.toDigits 10 s).head? ≠ some '0' ∧ Nat.ofDigitChars 10 (Nat.toDigits 10 s) 0 = s := by
  refine ⟨fun c => isDigit_of_mem, Nat.toDigits_ne_nil, fun hhead => ?_, Nat.ofDigitChars_ten_toDigits⟩
  have hvalue := Nat.ofDigitChars_ten_toDigits (n := s)
  rw [toDigits_head s hhead] at hvalue
  exact hs.ne hvalue

/-- Digits before and behind a decimal point. -/
theorem standFor_split (hs : 0 < s) (hq : -1000 ≤ q) {n : ℕ} (hn : 0 < n) {e : Option ℤ}
    (hsum : e.getD 0 - (((Nat.toDigits 10 s).drop n).length : ℤ) = q) :
    StandFor s q ((Nat.toDigits 10 s).take n) ((Nat.toDigits 10 s).drop n) e := by
  obtain ⟨hdigits, hne, hzero, hvalue⟩ := toDigits_spec hs
  refine ⟨fun hnil => ?_, fun c hc => hdigits c (mem_of_mem_take hc), ?_,
    fun c hc => hdigits c (mem_of_mem_drop hc), ?_, by omega⟩
  · exact (take_eq_nil_iff.mp hnil).elim hn.ne' hne
  · rw [List.head?_take, if_neg hn.ne']
    exact fun h => absurd h hzero
  · rw [take_append_drop, hvalue, hsum]

/-- Zeros behind the decimal point. -/
theorem standFor_zeros (hs : 0 < s) (hq : -1000 ≤ q) {z : ℕ} (hsum : -((z : ℤ) + (Nat.toDigits 10 s).length) = q) :
    StandFor s q ['0'] (List.replicate z '0' ++ Nat.toDigits 10 s) none := by
  obtain ⟨hdigits, hne, -, hvalue⟩ := toDigits_spec hs
  have hexponent : (none : Option ℤ).getD 0 - ((List.replicate z '0' ++ Nat.toDigits 10 s).length : ℤ) = q := by
    rw [length_append, length_replicate, Option.getD_none]
    omega
  have hone : Nat.ofDigitChars 10 ['0'] 0 = 0 := rfl
  refine ⟨by simp, by simp, fun _ => rfl, ?_, ?_, by omega⟩
  · rw [forall_mem_append]
    exact ⟨isDigit_zeros z, hdigits⟩
  · rw [hexponent, Nat.ofDigitChars_append, hone, Nat.ofDigitChars_append, Nat.ofDigitChars_replicate_zero, mul_zero,
      hvalue]

theorem ReadsAs.of_standFor {whole f cs : List Char} {e : Option ℤ} (h : StandFor s q whole f e)
    (htext : cs = whole ++ (fractionText f ++ exponentText e)) : ReadsAs s q cs :=
  ⟨whole, f, e, fun rest => by rw [htext, append_assoc, append_assoc], h.whole_ne,
    h.whole_digits, h.whole_zero, h.fraction_digits, h.value, h.bound⟩

/-- Every layout of the digits of a number. -/
theorem readsAs_layout (hs : 0 < s) (hq : -1000 ≤ q) (hlength : (Nat.toDigits 10 s).length ≤ 18) :
    ReadsAs s q (layout (Nat.toDigits 10 s) ((Nat.toDigits 10 s).length + q)) := by
  obtain ⟨hdigits, hne, hzero, hvalue⟩ := toDigits_spec hs
  have hpos : 0 < (Nat.toDigits 10 s).length := length_pos_iff.mpr hne
  unfold layout
  dsimp only
  split
  · -- an integer
    next hinteger =>
    obtain ⟨t, rfl⟩ : ∃ t : ℕ, q = t := ⟨q.toNat, by omega⟩
    have hcount : (((Nat.toDigits 10 s).length : ℤ) + t).toNat - (Nat.toDigits 10 s).length = t := by omega
    rw [hcount]
    refine .of_standFor (f := []) (e := none)
      ⟨by simp [hne], ?_, ?_, forall_mem_nil _, ?_, by simp⟩ (append_nil _).symm
    · rw [forall_mem_append]
      exact ⟨hdigits, isDigit_zeros t⟩
    · rw [List.head?_append_of_ne_nil _ hne]
      exact fun h => absurd h hzero
    · rw [append_nil, Nat.ofDigitChars_append, hvalue, Nat.ofDigitChars_replicate_zero]
      simp [decimalValue, mul_comm]
  split
  · -- a decimal point among the digits
    next hinteger hpoint =>
    obtain ⟨n, hn⟩ : ∃ n : ℕ, ((Nat.toDigits 10 s).length : ℤ) + q = n :=
      ⟨(((Nat.toDigits 10 s).length : ℤ) + q).toNat, by omega⟩
    have hfraction : (Nat.toDigits 10 s).drop n ≠ [] := fun hnil => by
      have := drop_eq_nil_iff.mp hnil
      omega
    rw [hn, Int.toNat_natCast]
    refine .of_standFor (standFor_split (e := none) hs hq (n := n) (by omega) ?_) ?_
    · rw [length_drop, Option.getD_none]
      omega
    · rw [fractionText_of_ne hfraction, exponentText, append_nil]
  split
  · -- zeros behind the decimal point
    next hinteger hpoint hsmall =>
    refine .of_standFor (standFor_zeros (z := (-(((Nat.toDigits 10 s).length : ℤ) + q)).toNat) hs hq (by omega)) ?_
    rw [fractionText_of_ne (append_ne_nil_of_right_ne_nil _ hne), exponentText, append_nil]
    rfl
  · -- an exponent
    next hinteger hpoint hsmall =>
    refine .of_standFor (standFor_split (e := some (((Nat.toDigits 10 s).length : ℤ) + q - 1)) hs hq
      (n := 1) Nat.one_pos ?_) ?_
    · rw [length_drop, Option.getD_some]
      omega
    · rw [exponentText]
      split
      · next hone =>
        rw [drop_of_length_le hone.le, fractionText]
        simp
      · next hmany =>
        rw [fractionText_of_ne fun hnil => hmany (by have := drop_eq_nil_iff.mp hnil; omega)]
        simp

end Layouts

/-! ## Reading the text of a number -/

section Read

variable {x : Number} {m : Nat} {e : ℤ} {hm : 0 < m}

theorem isNaN_of_unpack {s : Sign} (hx : x.toModel.unpack = .finite s m e hm) : x.isNaN = false := by
  change UnpackedFloat.isNaN x.toModel.unpack = false
  rw [hx]
  rfl

/-- What equals a finite number other than 0 is held as it is. -/
theorem unpack_of_beq {y : Number} {s : Sign} (hx : x.toModel.unpack = .finite s m e hm) (h : (y == x) = true) :
    y.toModel.unpack = .finite s m e hm := by
  obtain ⟨hy, -⟩ := not_isNaN_of_beq h
  rw [beq_iff_rank hy (isNaN_of_unpack hx), rank, rank, hx] at h
  cases hu : y.toModel.unpack with
  | notANumber => exact absurd hu (unpack_ne hy)
  | infinity s' => rw [hu] at h; cases s <;> cases s' <;> simp [rankOf] at h
  | zero s' => rw [hu] at h; cases s <;> simp [rankOf] at h
  | finite s' m' e' hm' =>
    rw [hu] at h
    cases s <;> cases s' <;> simp [rankOf] at h
    · obtain ⟨rfl, rfl⟩ := h
      rfl
    · obtain ⟨rfl, rfl⟩ := h
      rfl

theorem unpack_neg {s : Sign} (hx : x.toModel.unpack = .finite s m e hm) :
    (-x).toModel.unpack = .finite (-s) m e hm := by
  obtain ⟨hcanonical, he⟩ := canonical_unpack hx
  change (Float.Model.pack (UnpackedFloat.neg x.toModel.unpack)).unpack = _
  rw [hx]
  exact unpack_pack_canonical hcanonical he hm

theorem shortest_le (x : Number) (num den : Nat) (n : ℤ) (fuel k : Nat) : (shortest x num den n fuel k).2 ≤ n - k := by
  induction fuel generalizing k with
  | zero => exact le_rfl
  | succ fuel ih =>
    rw [shortest]
    split
    · exact le_rfl
    · exact (ih (k + 1)).trans (by omega)

/-- A double is below `10 ^ 309`. -/
theorem magnitude_le (hx : x.toModel.unpack = .finite .positive m e hm) :
    magnitude x.fraction.1 x.fraction.2 ≤ 309 := by
  obtain ⟨hcanonical, he⟩ := canonical_unpack hx
  obtain ⟨hden, hvalue, hbound⟩ := fraction_spec hx
  obtain ⟨hlow, -, -⟩ := magnitude_spec hden hbound
  have hm' : (m : ℚ) < 2 ^ 53 := by exact_mod_cast hcanonical.lt
  have hpow : (2 : ℚ) ^ e ≤ 2 ^ (971 : ℤ) := zpow_le_zpow_right₀ (by norm_num) he
  have hsmall : (m : ℚ) * 2 ^ e < 10 ^ (309 : ℤ) := calc
    (m : ℚ) * 2 ^ e < 2 ^ 53 * 2 ^ (971 : ℤ) :=
      mul_lt_mul hm' hpow (zpow_pos (by norm_num) e) (by norm_num)
    _ = ((2 ^ 53 * 2 ^ 971 : ℕ) : ℚ) := by rw [Nat.cast_mul, Nat.cast_pow, Nat.cast_pow, Nat.cast_ofNat]; rfl
    _ ≤ ((10 ^ 309 : ℕ) : ℚ) := Nat.cast_le.mpr (by decide +kernel)
    _ = 10 ^ (309 : ℤ) := by rw [Nat.cast_pow, Nat.cast_ofNat]; rfl
  rw [hvalue] at hlow
  have hlt := (zpow_lt_zpow_iff_right₀ (by norm_num : (1 : ℚ) < 10)).mp (hlow.trans_lt hsmall)
  omega

/-- The digits of a positive number: they are read back as it, and stand for it in every layout. -/
theorem exists_digits (hx : x.toModel.unpack = .finite .positive m e hm) :
    ∃ s q, 0 < s ∧ -1000 ≤ q ∧ q ≤ 400 ∧ (Nat.toDigits 10 s).length ≤ 18 ∧ (ofDecimal s q == x) = true ∧
      ∃ s' q', shortest x x.fraction.1 x.fraction.2 (magnitude x.fraction.1 x.fraction.2) 16 1 = (s', q') ∧
        stripZeros 17 s' q' = (s, q) := by
  obtain ⟨s, q, hshortest, hs, hbound, hq, hread⟩ := @exists_shortest _ _ _ _ hx 16 1 (Nat.le_refl 1) rfl
  obtain ⟨s', q', hstrip⟩ : ∃ s' q', stripZeros 17 s q = (s', q') := ⟨_, _, rfl⟩
  obtain ⟨t, hzeros, hq'⟩ := stripZeros_spec hstrip
  have hs' : 0 < s' := by
    refine Nat.pos_of_ne_zero ?_
    rintro rfl
    rw [zero_mul] at hzeros
    exact hs.ne' hzeros
  have hvalue : decimalValue s' q' = decimalValue s q := by
    rw [decimalValue, decimalValue, hq', hzeros, zpow_add₀ (by norm_num), zpow_natCast]
    push_cast
    ring
  have hlength : (Nat.toDigits 10 s').length ≤ 18 := by
    rw [Nat.length_toDigits_le_iff (by decide) (by decide)]
    have hle : s' ≤ s := by
      rw [hzeros]
      exact Nat.le_mul_of_pos_right _ (Nat.pow_pos (by decide))
    exact Nat.lt_of_le_of_lt (hle.trans hbound) (by decide)
  have hq'' : q' ≤ 400 := by
    have hle := shortest_le x x.fraction.1 x.fraction.2 (magnitude x.fraction.1 x.fraction.2) 16 1
    have hmagnitude := magnitude_le hx
    rw [hshortest] at hle
    have ht : t ≤ 17 := by
      rw [← Nat.pow_le_pow_iff_right (by decide : 1 < 10)]
      calc 10 ^ t ≤ s' * 10 ^ t := Nat.le_mul_of_pos_left _ hs'
        _ = s := hzeros.symm
        _ ≤ 10 ^ 17 := hbound
    dsimp only at hle
    omega
  refine ⟨s', q', hs', by omega, hq'', hlength, ?_, s, q, hshortest, hstrip⟩
  have hmodel := ofDecimal_congr hs' hs (by omega) (by omega) hvalue
  change UnpackedFloat.beq (ofDecimal s' q').toModel.unpack x.toModel.unpack = true
  rw [hmodel]
  exact hread

theorem readsAs_positiveToString (hx : x.toModel.unpack = .finite .positive m e hm) :
    ∃ s q, 0 < s ∧ -2048 ≤ q ∧ (ofDecimal s q == x) = true ∧ ReadsAs s q (positiveToString x).toList := by
  obtain ⟨s, q, hs, hq, -, hlength, hread, s', q', hshortest, hstrip⟩ := exists_digits hx
  refine ⟨s, q, hs, by omega, hread, ?_⟩
  have htext : (positiveToString x).toList = layout (Nat.toDigits 10 s) ((Nat.toDigits 10 s).length + q) := by
    rw [positiveToString]
    dsimp only
    rw [hshortest]
    dsimp only
    rw [hstrip, String.toList_ofList]
  rw [htext]
  exact readsAs_layout hs hq hlength

/-- What the digits of a positive number are read as, without and with a sign. -/
theorem isNumber_ofParts {s : Nat} {q : ℤ} {whole fraction : List Char} {exponent : Option ℤ} (negative : Bool)
    (hx : x.toModel.unpack = .finite .positive m e hm) (hs : 0 < s) (hq : -2048 ≤ q)
    (hread : (ofDecimal s q == x) = true)
    (hvalue : decimalValue (Nat.ofDigitChars 10 (whole ++ fraction) 0) (exponent.getD 0 - fraction.length) =
      decimalValue s q)
    (hexponent : -2048 ≤ exponent.getD 0 - (fraction.length : ℤ)) :
    IsNumber (if negative then -x else x) (ofParts negative whole fraction exponent) := by
  unfold ofParts
  dsimp only
  generalize Nat.ofDigitChars 10 (whole ++ fraction) 0 = n at hvalue ⊢
  have hn : 0 < n := by
    refine Nat.pos_of_ne_zero ?_
    rintro rfl
    have hpos : 0 < decimalValue s q := mul_pos (by exact_mod_cast hs) (zpow_pos (by norm_num) q)
    rw [← hvalue, decimalValue, Nat.cast_zero, zero_mul] at hpos
    exact hpos.false
  have hmodel := ofDecimal_congr hn hs hexponent hq hvalue
  have hread' : (ofDecimal n (exponent.getD 0 - fraction.length) == x) = true := by
    change UnpackedFloat.beq (ofDecimal n (exponent.getD 0 - fraction.length)).toModel.unpack x.toModel.unpack = true
    rw [hmodel]
    exact hread
  by_cases hcount : negative = false ∧ fraction = [] ∧ exponent = none ∧ n < 2 ^ 53
  · rw [if_pos hcount]
    obtain ⟨rfl, rfl, rfl, hsmall⟩ := hcount
    have hwhole : (ofDecimal n 0 == ofNat n) = true := beq_ofScientific (unpack_ofNat hn hsmall)
    exact .count (beq_of_beq hwhole hread')
  · rw [if_neg hcount]
    cases negative with
    | false => exact .number hread'
    | true =>
      have hsame := unpack_neg (unpack_of_beq hx hread')
      exact .number (beq_of_unpack (hsame.trans (unpack_neg hx).symm) (isNaN_of_unpack hsame))

/-- The text of a positive number, behind a sign or not, is read as it. -/
theorem number_positiveToString (hx : x.toModel.unpack = .finite .positive m e hm) (negative : Bool) :
    ∃ v, (∀ rest, Json.Ends rest →
        Json.number (signText negative ++ ((positiveToString x).toList ++ rest)) = some (v, rest)) ∧
      IsNumber (if negative then -x else x) v := by
  obtain ⟨s, q, hs, hq, hread, whole, fraction, exponent, htext, hne, hwhole, hzero, hfraction, hvalue, hexponent⟩ :=
    readsAs_positiveToString hx
  refine ⟨ofParts negative whole fraction exponent, fun rest hrest => ?_,
    isNumber_ofParts negative hx hs hq hread hvalue hexponent⟩
  rw [htext, number_parts negative hne hwhole hzero hfraction hrest]

/-- A finite number is 0, or a positive one with a sign or without. -/
theorem finite_form {x : Number} (h : x.isFinite = true) :
    (x == 0) = true ∨ (x == 0) = false ∧ x.isInf = false ∧ ∃ m e hm,
      (if x < 0 then -x else x).toModel.unpack = .finite .positive m e hm ∧
      ((if decide (x < 0) then -(if x < 0 then -x else x) else if x < 0 then -x else x) == x) = true := by
  cases hu : x.toModel.unpack with
  | notANumber => exact absurd hu (unpack_ne (not_isNaN_of_isFinite h))
  | infinity s =>
    change UnpackedFloat.isFinite x.toModel.unpack = true at h
    rw [hu] at h
    cases h
  | zero s =>
    refine .inl ?_
    change UnpackedFloat.beq x.toModel.unpack (0 : Number).toModel.unpack = true
    rw [hu, unpack_zero]
    rfl
  | finite s m e hm =>
    refine .inr ⟨?_, ?_, m, e, hm, ?_⟩
    · change UnpackedFloat.beq x.toModel.unpack (0 : Number).toModel.unpack = false
      rw [hu, unpack_zero]
      cases s <;> rfl
    · change UnpackedFloat.isInf x.toModel.unpack = false
      rw [hu]
      rfl
    · cases s with
      | positive =>
        have hpos : 0 ≤ x := by
          rw [zero_le_iff, hu]
          rfl
        simp only [not_lt_of_le hpos, if_false, decide_false]
        exact ⟨hu, beq_self_of (not_isNaN_of_isFinite h)⟩
      | negative =>
        have hneg : x < 0 := by
          rw [lt_iff_compare, hu, unpack_zero]
          rfl
        have hminus : (-x).toModel.unpack = .finite .positive m e hm := unpack_neg hu
        have hback : (- -x).toModel.unpack = .finite .negative m e hm := unpack_neg hminus
        simp only [hneg, if_true, decide_true]
        exact ⟨hminus, beq_of_unpack (hback.trans hu.symm) (isNaN_of_unpack hback)⟩

theorem finite_cases {x : Number} (h : x.isFinite = true) :
    numberToString x = "0" ∧ (x == 0) = true ∨
      ∃ y m e hm, y.toModel.unpack = .finite .positive m e hm ∧ ∃ negative : Bool,
        (numberToString x).toList = signText negative ++ (positiveToString y).toList ∧
        ((if negative then -y else y) == x) = true := by
  rcases finite_form h with hzero | ⟨hzero, hinf, m, e, hm, hu, hsame⟩
  · exact .inl ⟨numberToString_of_zero hzero, hzero⟩
  · refine .inr ⟨_, m, e, hm, hu, decide (x < 0), ?_, hsame⟩
    rw [numberToString, not_isNaN_of_isFinite h, hzero, hinf, if_neg (by decide), if_neg (by decide)]
    by_cases hneg : x < 0
    · simp only [hneg, if_true, decide_true, signText_true, Bool.false_eq_true, if_false, String.toList_append]
      rfl
    · simp only [hneg, if_false, decide_false, signText_false, Bool.false_eq_true, nil_append]

/-- The text of a number depends on its form only. -/
theorem numberToString_congr {x y : Number} (h : x.toModel.unpack = y.toModel.unpack) :
    numberToString x = numberToString y := by
  have hnan : x.isNaN = y.isNaN := congrArg UnpackedFloat.isNaN h
  have hinf : x.isInf = y.isInf := congrArg UnpackedFloat.isInf h
  have hzero : (x == 0) = (y == 0) := congrArg (UnpackedFloat.beq · (0 : Number).toModel.unpack) h
  have hless : (x < 0) = (y < 0) := by rw [eq_iff_iff, lt_iff_compare, lt_iff_compare, h]
  have hminus : (-x).toModel.unpack = (-y).toModel.unpack :=
    congrArg (fun u => (Float.Model.pack (UnpackedFloat.neg u)).unpack) h
  simp only [numberToString, hnan, hinf, hzero, hless, positiveToString_congr h, positiveToString_congr hminus]

end Read

theorem beq_swap {x y : Number} (h : (x == y) = true) : (y == x) = true :=
  beq_of_beq h (beq_self_of (not_isNaN_of_beq h).1)

theorem isNumber_congr {x y : Number} {v : Value} (h : (x == y) = true) (hv : IsNumber x v) : IsNumber y v := by
  cases hv with
  | count hn => exact .count (beq_of_beq (beq_swap hn) h)
  | number hy => exact .number (beq_of_beq (beq_swap hy) h)

theorem isNumber_unique {x y : Number} {v : Value} (hx : IsNumber x v) (hy : IsNumber y v) : (x == y) = true := by
  cases hx with
  | count h => cases hy with
    | count h' => exact beq_of_beq h h'
  | number h => cases hy with
    | number h' => exact beq_of_beq h h'

/-- JSON reads the text of a finite number as that number. -/
theorem number_numberToString {x : Number} (hfinite : x.isFinite = true) :
    ∃ v, (∀ rest, Json.Ends rest → Json.number ((numberToString x).toList ++ rest) = some (v, rest)) ∧ IsNumber x v := by
  rcases finite_cases hfinite with ⟨htext, hzero⟩ | ⟨y, m, e, hm, hu, negative, htext, hsame⟩
  · refine ⟨.count 0, fun rest hrest => ?_, .count ?_⟩
    · rw [htext]
      exact @number_toDigits 0 (by decide) _ hrest
    · have hofNat : ofNat 0 = 0 := by decide +kernel
      rw [hofNat]
      exact beq_of_beq hzero (beq_self_of (not_isNaN_of_beq hzero).1)
  · obtain ⟨v, hv, his⟩ := number_positiveToString hu negative
    exact ⟨v, fun rest hrest => by rw [htext, append_assoc, hv rest hrest], isNumber_congr hsame his⟩

/-- Two finite numbers have one text exactly when they are equal. -/
theorem numberToString_eq_iff {x y : Number} (hx : x.isFinite = true) (hy : y.isFinite = true) :
    numberToString x = numberToString y ↔ (x == y) = true := by
  constructor
  · intro htext
    have hrest : Json.Ends [] := nofun
    obtain ⟨v, hv, his⟩ := number_numberToString hx
    obtain ⟨w, hw, his'⟩ := number_numberToString hy
    have hread := hv [] hrest
    rw [htext, hw [] hrest] at hread
    obtain ⟨rfl, -⟩ := Prod.mk.inj (Option.some.inj hread)
    exact isNumber_unique his his'
  · intro hbeq
    rcases finite_cases hx with ⟨htext, hzero⟩ | ⟨z, m, e, hm, hu, negative, -, hsame⟩
    · rw [htext, numberToString_of_zero (beq_of_beq hbeq hzero)]
    · have hform : ∃ s, (if negative then -z else z).toModel.unpack = .finite s m e hm := by
        cases negative with
        | false => exact ⟨_, hu⟩
        | true => exact ⟨_, unpack_neg hu⟩
      obtain ⟨s, hs⟩ := hform
      have hux := unpack_of_beq hs (beq_swap hsame)
      exact numberToString_congr (hux.trans (unpack_of_beq hux (beq_swap hbeq)).symm)

end Number

end Js
