import Stencil.Number.Power

/-! # What is too large -/

namespace Stencil

/--
No whole number, a list that is longer than any, a list that no memory holds, and a whole number
with too many digits to be read or to be written.
-/
inductive Overflow
  | infinite
  | tooLong
  | tooLarge
  | unreadable (digits : Nat)
  | unwritable
deriving DecidableEq, Repr

/-- The most memory for one text, in bytes. -/
def maxBytes : Nat := twoPow 35

/-- Why something cannot be read: there is a fault in it, or a number that is too large. -/
inductive Failure (ε : Type)
  | malformed (fault : ε)
  | overflow (o : Overflow)
deriving DecidableEq, Repr

def Failure.map {ε δ : Type} (f : ε → δ) : Failure ε → Failure δ
  | .malformed fault => .malformed (f fault)
  | .overflow o => .overflow o

end Stencil
