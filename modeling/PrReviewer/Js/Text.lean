import PrReviewer.Js.Value

/-!
# Numbers as text

`numberToString` writes a number as the shortest decimal that reads back as it, in the layout of
`Number::toString`.
-/

namespace Js

/-! ## Numbers -/

/-- `x` as a fraction of natural numbers, for a positive finite `x`. -/
def Number.fraction (x : Number) : Nat × Nat :=
  match x.toModel.unpack with
  | .finite _ m e _ => if 0 ≤ e then (m * 2 ^ e.toNat, 1) else (m, 2 ^ (-e).toNat)
  | _ => (0, 1)

/-- The number `s * 10 ^ q` rounds to. -/
def Number.ofDecimal (s : Nat) (q : Int) : Number :=
  if 0 ≤ q then Float.ofScientific (s * 10 ^ q.toNat) false 0 else Float.ofScientific s true (-q).toNat

/-- How often the fraction must be multiplied by 10 to reach 1. -/
def leadingZeros : Nat → Nat → Nat → Nat
  | 0, _, _ => 0
  | fuel + 1, num, den => if den ≤ num then 0 else leadingZeros fuel (num * 10) den + 1

/-- The `n` with `10 ^ (n - 1) ≤ num / den < 10 ^ n`; the smallest number is above `10 ^ (-324)`. -/
def magnitude (num den : Nat) : Int :=
  if den ≤ num then (Nat.toDigits 10 (num / den)).length else 1 - leadingZeros 324 num den

/-- The decimal numbers `s * 10 ^ (n - k)` of `k` digits next to `num / den`, the closer one first. -/
def neighbours (num den : Nat) (n : Int) (k : Nat) : List Nat :=
  let q := (k : Int) - n
  let a := if 0 ≤ q then num * 10 ^ q.toNat else num
  let b := if 0 ≤ q then den else den * 10 ^ (-q).toNat
  let s := a / b
  let r := a % b
  if 2 * r < b ∨ 2 * r = b ∧ s % 2 = 0 then [s, s + 1] else [s + 1, s]

/-- The fewest digits that read back as `x`, as `s` and `q` of `s * 10 ^ q`, starting with `k` digits. -/
def shortest (x : Number) (num den : Nat) (n : Int) : Nat → Nat → Nat × Int
  | 0, k => ((neighbours num den n k).headD 0, n - k)
  | fuel + 1, k =>
    match (neighbours num den n k).find? fun s => s != 0 && Number.ofDecimal s (n - k) == x with
    | some s => (s, n - k)
    | none => shortest x num den n fuel (k + 1)

/-- `s * 10 ^ q` without the zeros at the end of `s`. -/
def stripZeros : Nat → Nat → Int → Nat × Int
  | 0, s, q => (s, q)
  | fuel + 1, s, q => if s % 10 = 0 then stripZeros fuel (s / 10) (q + 1) else (s, q)

/-- The layout of the digits `ds` with the decimal point after `n` of them. -/
def layout (ds : List Char) (n : Int) : List Char :=
  let k := ds.length
  if k ≤ n ∧ n ≤ 21 then ds ++ List.replicate (n.toNat - k) '0'
  else if 0 < n ∧ n ≤ 21 then ds.take n.toNat ++ '.' :: ds.drop n.toNat
  else if -6 < n ∧ n ≤ 0 then '0' :: '.' :: (List.replicate (-n).toNat '0' ++ ds)
  else
    let e := n - 1
    ds.take 1 ++ (if k = 1 then [] else '.' :: ds.drop 1)
      ++ 'e' :: (if 0 ≤ e then '+' else '-') :: Nat.toDigits 10 e.natAbs

def positiveToString (x : Number) : String :=
  let (num, den) := x.fraction
  let (s, q) := shortest x num den (magnitude num den) 16 1
  let (s, q) := stripZeros 17 s q
  let ds := Nat.toDigits 10 s
  String.ofList (layout ds (ds.length + q))

/-- `String(x)`. -/
def numberToString (x : Number) : String :=
  if x.isNaN then "NaN"
  else if x == 0 then "0"
  else if x < 0 then "-" ++ (if x.isInf then "Infinity" else positiveToString (-x))
  else if x.isInf then "Infinity"
  else positiveToString x

end Js
