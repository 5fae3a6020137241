import Stencil.Number.Binary64

/-! # The order of numbers -/

namespace Stencil

inductive Number
  | whole (n : Int)
  | float (x : Binary64)
deriving DecidableEq, Repr

namespace Number

/-- `left * 2 ^ e` against `right * 2 ^ f`, exactly. -/
def compareScaled (left : Int) (e : Int) (right : Int) (f : Int) : Ordering :=
  let least := min e f
  let x := left * twoPow (e - least).toNat
  let y := right * twoPow (f - least).toNat
  if x < y then .lt else if x = y then .eq else .gt

def signed (negative : Bool) (m : Nat) : Int := if negative then -(m : Int) else m

def infinityOrder (negative : Bool) : Ordering := if negative then .lt else .gt

/-- Exact, without rounding either side. A NaN has no place in the order. -/
def compare? : Number → Number → Option Ordering
  | .float (.nan _), _ => none
  | _, .float (.nan _) => none
  | .float (.infinite s), .float (.infinite t) =>
    some (if s = t then .eq else infinityOrder s)
  | .float (.infinite s), _ => some (infinityOrder s)
  | _, .float (.infinite t) => some (infinityOrder t).swap
  | .whole n, .whole m => some (compareScaled n 0 m 0)
  | .whole n, .float (.finite t m f) => some (compareScaled n 0 (signed t m) f)
  | .float (.finite s m e), .whole n => some (compareScaled (signed s m) e n 0)
  | .float (.finite s m e), .float (.finite t n f) =>
    some (compareScaled (signed s m) e (signed t n) f)

end Number

end Stencil
