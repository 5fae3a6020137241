import Stencil.Number.Power

/-! # Floating-point numbers of 64 bits -/

namespace Stencil

/--
A finite number is `significand * 2 ^ exponent`, with fewer than 54 bits in the significand. The
payload of a NaN tells one from another.
-/
inductive Binary64
  | nan (payload : Nat)
  | infinite (negative : Bool)
  | finite (negative : Bool) (significand : Nat) (exponent : Int)
deriving DecidableEq, Repr

namespace Binary64

def minExponent : Int := -1074

def maxExponent : Int := 971

/-! ## Rounding -/

/-- The whole number nearest to `num / den`; a half goes to the even neighbour. -/
def roundQuotient (num den : Nat) : Nat :=
  let whole := num / den
  let twice := 2 * (num % den)
  if twice < den then whole
  else if den < twice then whole + 1
  else if whole % 2 = 0 then whole else whole + 1

/-- `num / den / 2 ^ e`, as a quotient. -/
def scale (num den : Nat) (e : Int) : Nat × Nat :=
  if 0 ≤ e then (num, den * twoPow e.toNat) else (num * twoPow (-e).toNat, den)

/-- The exponent that gives `num / den` a significand of 53 bits, or the least one. -/
def exponentOf (num den : Nat) : Int :=
  let guess : Int := (num.log2 : Int) - den.log2 - 52
  let (n, d) := scale num den guess
  max minExponent (if n < d * twoPow 52 then guess - 1 else guess)

def ofQuotient (negative : Bool) (num den : Nat) : Binary64 :=
  if num = 0 then .finite negative 0 minExponent
  else
    let e := exponentOf num den
    let (n, d) := scale num den e
    let m := roundQuotient n d
    let (m, e) := if m = twoPow 53 then (twoPow 52, e + 1) else (m, e)
    if maxExponent < e then .infinite negative else .finite negative m e

def ofDecimal (negative : Bool) (digits : Nat) (exponent : Int) : Binary64 :=
  if 0 ≤ exponent then ofQuotient negative (digits * tenPow exponent.toNat) 1
  else ofQuotient negative digits (tenPow (-exponent).toNat)

/-! ## Whole numbers -/

/-- A number without its fraction. -/
def truncate (negative : Bool) (significand : Nat) (exponent : Int) : Int :=
  let size : Nat :=
    if 0 ≤ exponent then significand * twoPow exponent.toNat
    else significand / twoPow (-exponent).toNat
  if negative then -(size : Int) else size

end Binary64

end Stencil
