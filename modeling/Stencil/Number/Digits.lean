import Stencil.Text.Digit

/-! # Whole numbers in digits -/

namespace Stencil

/-- The most digits of a whole number that is read from a text or written as one. -/
def maxDigits : Nat := 4300

/-- The number that digits write, if there are not too many of them. -/
def natOfDigits? (digits : List Char) : Option Nat :=
  if digits.length ≤ maxDigits then some (Text.natOfDigits digits) else none

/-- A whole number in digits, if there are not too many of them. -/
def intText? (n : Int) : Option String :=
  if (Nat.toDigits 10 n.natAbs).length ≤ maxDigits then some (toString n) else none

end Stencil
