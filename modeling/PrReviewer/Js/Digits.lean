import PrReviewer.Js.Json

/-!
# Digits of a number

A text of decimal digits without a zero in front is the text of its number (`toDigits_ofDigitChars`), and the
hexadecimal digits of a number read back as it (`ofHexDigits_toDigits`).
-/

open List

namespace Js

/-! ## Decimal -/

variable {c : Char} {n : Nat}

theorem digitChar_toNat (h : c.isDigit = true) : c.toNat - 48 < 10 ∧ Nat.digitChar (c.toNat - 48) = c := by
  have hchar : ∀ n < 10, Nat.digitChar n = Char.ofNat (n + 48) := by decide
  obtain ⟨hlow, hhigh⟩ : 48 ≤ c.toNat ∧ c.toNat ≤ 57 := by
    rw [Char.isDigit, Bool.and_eq_true, decide_eq_true_eq, decide_eq_true_eq] at h
    exact ⟨UInt32.le_iff_toNat_le.mp h.1, UInt32.le_iff_toNat_le.mp h.2⟩
  refine ⟨by omega, ?_⟩
  rw [hchar _ (by omega), Nat.sub_add_cancel hlow, Char.ofNat_toNat]

/-- Digits behind those of a number above 0. -/
theorem toDigits_append_digits (cs : List Char) {n : Nat} (hn : 0 < n) (h : ∀ c ∈ cs, c.isDigit = true) :
    Nat.toDigits 10 (Nat.ofDigitChars 10 cs n) = Nat.toDigits 10 n ++ cs := by
  induction cs generalizing n with
  | nil => simp
  | cons c cs ih =>
    obtain ⟨hlt, hchar⟩ := digitChar_toNat (h c mem_cons_self)
    have happend := Nat.toDigits_append_toDigits (b := 10) (by decide) hn hlt
    rw [Nat.toDigits_of_lt_base hlt, hchar] at happend
    have hrest := @ih (10 * n + (c.toNat - 48)) (by omega) fun d hd => h d (mem_cons_of_mem _ hd)
    rw [← happend, append_assoc, singleton_append] at hrest
    rw [Nat.ofDigitChars_cons]
    exact hrest

/-- Digits without a zero in front are those of their number. -/
theorem toDigits_ofDigitChars {cs : List Char} (hne : c ≠ '0') (h : ∀ d ∈ c :: cs, d.isDigit = true) :
    Nat.toDigits 10 (Nat.ofDigitChars 10 (c :: cs) 0) = c :: cs := by
  obtain ⟨hlt, hchar⟩ := digitChar_toNat (h c mem_cons_self)
  have hpos : 0 < c.toNat - 48 := by
    rcases Nat.eq_zero_or_pos (c.toNat - 48) with hzero | hpos
    · rw [hzero] at hchar
      exact absurd hchar.symm hne
    · exact hpos
  have hrest := toDigits_append_digits cs hpos fun d hd => h d (mem_cons_of_mem _ hd)
  rw [Nat.toDigits_of_lt_base hlt, hchar, singleton_append] at hrest
  rw [Nat.ofDigitChars_cons, Nat.mul_zero, Nat.zero_add]
  exact hrest

/-! ## Hexadecimal -/

/-- The number that hexadecimal digits write. -/
def ofHexDigits (cs : List Char) : Nat := cs.foldl (fun n c => n * 16 + (Json.hexValue c).getD 0) 0

theorem hexValue_lt (h : Json.hexValue c = some n) : n < 16 := by
  rw [Json.hexValue] at h
  split at h
  · next hdigit =>
    cases h
    have hle : c.toNat ≤ '9'.toNat := hdigit.2
    have h9 : '9'.toNat = 57 := rfl
    omega
  split at h
  · next hlower =>
    cases h
    have hle : c.toNat ≤ 'f'.toNat := hlower.2
    have hf : 'f'.toNat = 102 := rfl
    omega
  split at h
  · next hupper =>
    cases h
    have hle : c.toNat ≤ 'F'.toNat := hupper.2
    have hf : 'F'.toNat = 70 := rfl
    omega
  · cases h

theorem hexValue_of_mem (h : c ∈ Nat.toDigits 16 n) : (Json.hexValue c).isSome = true := by
  induction n using Nat.strongRecOn with
  | ind n ih =>
    rw [Nat.toDigits_eq_if (by decide)] at h
    split at h
    · next hlt =>
      rw [mem_singleton.mp h, ← Json.hexDigit, Json.hexValue_hexDigit hlt]
      rfl
    · next hge =>
      rcases mem_append.mp h with h | h
      · exact ih (n / 16) (by omega) h
      · rw [mem_singleton.mp h, ← Json.hexDigit, Json.hexValue_hexDigit (Nat.mod_lt _ (by decide))]
        rfl

/-- The hexadecimal digits of a number read back as it. -/
theorem ofHexDigits_toDigits (n : Nat) : ofHexDigits (Nat.toDigits 16 n) = n := by
  induction n using Nat.strongRecOn with
  | ind n ih =>
    rw [Nat.toDigits_eq_if (by decide)]
    split
    · next hlt =>
      rw [ofHexDigits, foldl_cons, foldl_nil, ← Json.hexDigit, Json.hexValue_hexDigit hlt]
      simp
    · next hge =>
      have hrest := ih (n / 16) (by omega)
      rw [ofHexDigits] at hrest ⊢
      rw [foldl_append, hrest, foldl_cons, foldl_nil, ← Json.hexDigit,
        Json.hexValue_hexDigit (Nat.mod_lt _ (by decide)), Option.getD_some]
      omega

end Js
