import Mathlib.Data.List.DropRight
import Mathlib.Data.List.Infix
import PrReviewer.Js.Value

/-!
# Bytes

`Uint8Array` and `Buffer` as lists of bytes. `utf8` is the encoding of a text, which separates texts
(`utf8_injective`).
-/

namespace Js

/-- The bytes of a buffer. -/
abbrev Bytes := List UInt8

/-- `Buffer.from(s, "utf8")`. -/
def utf8 (s : String) : Bytes := s.toList.flatMap String.utf8EncodeChar

theorem utf8_injective {a b : String} (h : utf8 a = utf8 b) : a = b := by
  have hencoded : a.toList.utf8Encode = b.toList.utf8Encode := congrArg List.toByteArray h
  have hdecoded := congrArg ByteArray.utf8Decode? hencoded
  rw [List.utf8Decode?_utf8Encode, List.utf8Decode?_utf8Encode, Option.some.injEq] at hdecoded
  exact String.toList_inj.mp (Array.toList_inj.mpr hdecoded)

namespace Bytes

/-- `buf.subarray(start, stop)` for indices in range. -/
def subarray (buf : Bytes) (start stop : Nat) : Bytes := (buf.take stop).drop start

/-- `buf.lastIndexOf(pattern)`. -/
def lastIndexOf? (buf pattern : Bytes) : Option Nat :=
  (List.range (buf.length + 1)).reverse.find? fun i => pattern.isPrefixOf (buf.drop i)

/-- `buf.includes(pattern)`. -/
def includes (buf pattern : Bytes) : Bool := decide (pattern <:+: buf)

/-- The line feed. -/
def nl : UInt8 := 0x0a

/-- The lines that end within the first `n` bytes. -/
def wholeLines (buf : Bytes) (n : Nat) : Bytes := (buf.take n).rdropWhile (· ≠ nl)

/-- What follows these bytes starts a line. -/
def AtLineStart (front : Bytes) : Prop := ∀ b ∈ front.getLast?, b = nl

instance (front : Bytes) : Decidable (AtLineStart front) :=
  inferInstanceAs (Decidable (∀ b ∈ front.getLast?, b = nl))

end Bytes

end Js
