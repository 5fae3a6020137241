import Stencil.Number.Binary64

/-! # The shortest decimal that reads back -/

namespace Stencil.Binary64

structure Decimal where
  digits : Nat
  exponent : Int
deriving DecidableEq, Repr

/-! ## The interval of a number -/

/--
The decimals that read back as one number lie between `low / den` and `high / den`, around
`value / den`; the ends belong to them when `closed` is set.
-/
structure Interval where
  low : Nat
  value : Nat
  high : Nat
  den : Nat
  closed : Bool

/--
Half a step to either side, in quarters of a step. Below a power of two the steps are half as wide.
-/
def intervalOf (m : Nat) (e : Int) : Interval :=
  let below := if m = twoPow 52 ∧ minExponent < e then 1 else 2
  let shift := (e - 2).toNat
  let drop := (2 - e).toNat
  ⟨(4 * m - below) * twoPow shift, 4 * m * twoPow shift, (4 * m + 2) * twoPow shift, twoPow drop,
    m % 2 = 0⟩

/-- `digits * 10 ^ exponent` reads back. -/
def Interval.holds (i : Interval) (d : Decimal) : Bool :=
  let n := d.digits * tenPow d.exponent.toNat * i.den
  let scale := tenPow (-d.exponent).toNat
  if i.closed then i.low * scale ≤ n && n ≤ i.high * scale
  else i.low * scale < n && n < i.high * scale

/-! ## The search -/

/-- `n / den` has this many digits before the point; zero or less when it is under one. -/
def digitsBeforePoint (n den : Nat) : Int :=
  if den ≤ n then (Nat.toDigits 10 (n / den)).length
  else 1 - (Nat.toDigits 10 ((den - 1) / n)).length

/-- The largest decimal not over the value, on the grid of `10 ^ exponent`. -/
def Interval.floorAt (i : Interval) (exponent : Int) : Nat :=
  i.value * tenPow (-exponent).toNat / (i.den * tenPow exponent.toNat)

/-- The next point of the grid is nearer than `digits`, or as near and even. -/
def Interval.nearerAbove (i : Interval) (digits : Nat) (exponent : Int) : Bool :=
  let middle := (2 * digits + 1) * tenPow exponent.toNat * i.den
  let value := 2 * i.value * tenPow (-exponent).toNat
  middle < value || (middle = value && digits % 2 = 1)

/--
Of the two neighbours on a grid, the one that reads back; of two such the nearer, and of two as
near the even.
-/
def Interval.onGrid? (i : Interval) (exponent : Int) : Option Decimal :=
  let d := i.floorAt exponent
  let down : Decimal := ⟨d, exponent⟩
  let up : Decimal := ⟨d + 1, exponent⟩
  match i.holds down, i.holds up with
  | true, true => some (if i.nearerAbove d exponent then up else down)
  | true, false => some down
  | false, true => some up
  | false, false => none

/-- Seventeen digits always read back. -/
def shortest (m : Nat) (e : Int) : Decimal :=
  let i := intervalOf m e
  let places := digitsBeforePoint i.value i.den
  let grids := (List.range 17).map fun (n : Nat) => places - 1 - n
  (grids.findSome? i.onGrid?).getD ⟨i.floorAt (places - 17), places - 17⟩

/-! ## The text -/

def stripZeros (digits : List Char) : List Char :=
  (digits.reverse.dropWhile (· = '0')).reverse

/-- The digits of a decimal without the zeros at the end, and the place of the point in them. -/
def Decimal.layout (d : Decimal) : List Char × Int :=
  let digits := Nat.toDigits 10 d.digits
  (stripZeros digits, digits.length + d.exponent)

/-- At least two digits. -/
def exponentDigits (n : Nat) : List Char :=
  let digits := Nat.toDigits 10 n
  if digits.length < 2 then '0' :: digits else digits

/--
A fraction is always written, with a point in its place from `0.0001` to under `10 ^ 16`, and with
an exponent outside.
-/
def layoutText (digits : List Char) (point : Int) : List Char :=
  if -4 < point ∧ point ≤ 16 then
    if point ≤ 0 then '0' :: '.' :: List.replicate (-point).toNat '0' ++ digits
    else
      let whole := digits.take point.toNat
      let fraction := digits.drop point.toNat
      whole ++ List.replicate (point.toNat - whole.length) '0' ++
        '.' :: (if fraction.isEmpty then ['0'] else fraction)
  else
    let exponent := point - 1
    let mantissa := match digits with
      | d :: e :: rest => d :: '.' :: e :: rest
      | short => short
    mantissa ++ 'e' :: (if exponent < 0 then '-' else '+') :: exponentDigits exponent.natAbs

/-- The shortest text that reads back as the same number. -/
def text : Binary64 → String
  | .nan _ => "nan"
  | .infinite negative => if negative then "-inf" else "inf"
  | .finite negative m e =>
    let body :=
      if m = 0 then "0.0".toList
      else
        let (digits, point) := (shortest m e).layout
        layoutText digits point
    String.ofList (if negative then '-' :: body else body)

end Stencil.Binary64
