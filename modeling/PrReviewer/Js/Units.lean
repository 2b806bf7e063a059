import Mathlib.Tactic.IntervalCases
import PrReviewer.Js.Value

/-!
# Texts as UTF-16 code units

What a string is to `length`, `split` and comparison: code units, lone surrogates included. `codePoints` reads
surrogate pairs, `encodeURIComponent` throws (`none`) at a surrogate outside of one, and
`Buffer.from(s, "utf8")` writes U+FFFD for it (`utf8Units`). The texts that `encodeURIComponent` and base64 write
are ASCII (`ascii_of_encodeURIComponent`, `ascii_base64`).
-/

open List

namespace Js

/-- UTF-16 code units. -/
abbrev Units := List UInt16

/-- The code units of a literal. -/
def units (s : String) : Units := (utf16 s).map UInt16.ofNat

def isHighSurrogate (u : UInt16) : Bool := 0xD800 ≤ u && u < 0xDC00

def isLowSurrogate (u : UInt16) : Bool := 0xDC00 ≤ u && u < 0xE000

/-- The code points of a text; a surrogate outside a pair is one of its own. -/
def codePoints : Units → List Nat
  | [] => []
  | [a] => [a.toNat]
  | a :: b :: cs =>
    if isHighSurrogate a && isLowSurrogate b then
      (0x10000 + (a.toNat - 0xD800) * 0x400 + (b.toNat - 0xDC00)) :: codePoints cs
    else a.toNat :: codePoints (b :: cs)

def isSurrogate (n : Nat) : Bool := 0xD800 ≤ n && n < 0xE000

/-- The UTF-8 bytes of a code point, those of U+FFFD for a surrogate. -/
def utf8Point (n : Nat) : List UInt8 :=
  String.utf8EncodeChar (if isSurrogate n then Char.ofNat 0xFFFD else Char.ofNat n)

/-- `Buffer.from(s, "utf8")`. -/
def utf8Units (s : Units) : List UInt8 := (codePoints s).flatMap utf8Point

/-- The upper-case hexadecimal digit. -/
def upperHexDigit (n : Nat) : UInt16 := UInt16.ofNat (if n < 10 then 48 + n else 55 + n)

/-- `%XX`. -/
def percentByte (b : UInt8) : Units := [37, upperHexDigit (b.toNat / 16), upperHexDigit (b.toNat % 16)]

/-- A letter, a digit or one of `-_.!~*'()`, which stay. -/
def isUnreserved (n : Nat) : Bool :=
  65 ≤ n && n ≤ 90 || 97 ≤ n && n ≤ 122 || 48 ≤ n && n ≤ 57 || [45, 95, 46, 33, 126, 42, 39, 40, 41].contains n

def encodePoint (n : Nat) : Units :=
  if isUnreserved n then [UInt16.ofNat n] else (utf8Point n).flatMap percentByte

/-- `encodeURIComponent(s)`, or `none` where it throws. -/
def encodeURIComponent (s : Units) : Option Units :=
  if (codePoints s).any isSurrogate then none else some ((codePoints s).flatMap encodePoint)

/-- The digit of a six-bit number. -/
def base64Digit (n : Nat) : UInt16 :=
  UInt16.ofNat (if n < 26 then 65 + n else if n < 52 then 71 + n else if n < 62 then n - 4 else if n = 62 then 43 else 47)

/-- The padding `=`. -/
def base64Pad : UInt16 := 61

/-- `buffer.toString("base64")`. -/
def base64 : List UInt8 → Units
  | [] => []
  | [a] => [base64Digit (a.toNat / 4), base64Digit (a.toNat % 4 * 16), base64Pad, base64Pad]
  | [a, b] =>
    [base64Digit (a.toNat / 4), base64Digit (a.toNat % 4 * 16 + b.toNat / 16), base64Digit (b.toNat % 16 * 4), base64Pad]
  | a :: b :: c :: rest =>
    base64Digit (a.toNat / 4) :: base64Digit (a.toNat % 4 * 16 + b.toNat / 16) ::
      base64Digit (b.toNat % 16 * 4 + c.toNat / 64) :: base64Digit (c.toNat % 64) :: base64 rest

/-! ## Encoded texts are ASCII -/

/-- Every unit is below `0x80`. -/
def IsAscii (s : Units) : Prop := ∀ u ∈ s, u.toNat < 0x80

theorem isAscii_flatMap {α : Type} {xs : List α} {f : α → Units} (h : ∀ x ∈ xs, IsAscii (f x)) :
    IsAscii (xs.flatMap f) := by
  intro u hu
  obtain ⟨x, hx, hux⟩ := mem_flatMap.mp hu
  exact h x hx u hux

theorem upperHexDigit_lt {n : Nat} (h : n < 16) : (upperHexDigit n).toNat < 0x80 := by
  interval_cases n <;> decide

theorem isAscii_percentByte (b : UInt8) : IsAscii (percentByte b) := by
  have hb : b.toNat < 256 := b.toNat_lt
  intro u hu
  simp only [percentByte, mem_cons, not_mem_nil, or_false] at hu
  rcases hu with rfl | rfl | rfl
  · decide
  · exact upperHexDigit_lt (by omega)
  · exact upperHexDigit_lt (by omega)

theorem lt_of_isUnreserved {n : Nat} (h : isUnreserved n = true) : n < 0x80 := by
  simp only [isUnreserved, Bool.or_eq_true, Bool.and_eq_true, decide_eq_true_eq, contains_eq_mem,
    mem_cons, not_mem_nil, or_false] at h
  omega

theorem isAscii_encodePoint (n : Nat) : IsAscii (encodePoint n) := by
  rw [encodePoint]
  split
  · next h =>
    have hn := lt_of_isUnreserved h
    intro u hu
    rw [mem_singleton.mp hu, UInt16.toNat_ofNat_of_lt' (lt_trans hn (by decide))]
    exact hn
  · exact isAscii_flatMap fun b _ => isAscii_percentByte b

theorem ascii_of_encodeURIComponent {s t : Units} (h : encodeURIComponent s = some t) : IsAscii t := by
  rw [encodeURIComponent] at h
  split at h
  · simp at h
  · obtain rfl := Option.some.inj h
    exact isAscii_flatMap fun n _ => isAscii_encodePoint n

theorem base64Digit_lt {n : Nat} (h : n < 64) : (base64Digit n).toNat < 0x80 := by
  interval_cases n <;> decide

theorem ascii_base64 (bytes : List UInt8) : IsAscii (base64 bytes) := by
  have hlt (b : UInt8) : b.toNat < 256 := b.toNat_lt
  have hpad : base64Pad.toNat < 0x80 := by decide
  induction bytes using base64.induct with
  | case1 => simp [base64, IsAscii]
  | case2 a =>
    have ha := hlt a
    simp only [base64, IsAscii, forall_mem_cons, not_mem_nil, false_implies, implies_true, and_true]
    exact ⟨base64Digit_lt (by omega), base64Digit_lt (by omega), hpad, hpad⟩
  | case3 a b =>
    have ha := hlt a
    have hb := hlt b
    simp only [base64, IsAscii, forall_mem_cons, not_mem_nil, false_implies, implies_true, and_true]
    exact ⟨base64Digit_lt (by omega), base64Digit_lt (by omega), base64Digit_lt (by omega), hpad⟩
  | case4 a b c rest ih =>
    have ha := hlt a
    have hb := hlt b
    have hc := hlt c
    simp only [base64, IsAscii, forall_mem_cons]
    exact ⟨base64Digit_lt (by omega), base64Digit_lt (by omega), base64Digit_lt (by omega),
      base64Digit_lt (by omega), ih⟩

example : encodeURIComponent (units "a b%") = some (units "a%20b%25") := by decide +kernel

example : base64 (utf8Units (units "abcd")) = units "YWJjZA==" := by decide +kernel

end Js
