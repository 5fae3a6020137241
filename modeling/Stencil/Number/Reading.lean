import Stencil.Number.Binary64
import Stencil.Number.Digits
import Stencil.Text.Blank

/-! # Reading numbers -/

namespace Stencil

open Text

/-! ## Whole numbers -/

/-- The separators of files, groups, records and units do not stand around a number. -/
def isPadding (c : Char) : Bool := isBlank c && !(28 ≤ c.toNat && c.toNat ≤ 31)

def trimPadding (cs : List Char) : List Char :=
  ((cs.dropWhile isPadding).reverse.dropWhile isPadding).reverse

/-- Digits, with single underscores between them. -/
def groupedDigits? : List Char → Option (List Char)
  | [] => none
  | [c] => if isDigit c then some [c] else none
  | c :: '_' :: rest =>
    if isDigit c then (groupedDigits? rest).map (c :: ·) else none
  | c :: rest => if isDigit c then (groupedDigits? rest).map (c :: ·) else none

def readNat? (cs : List Char) : Option Nat := (groupedDigits? cs).bind natOfDigits?

/-- A sign and grouped digits, with blanks around them. -/
def readInt? (cs : List Char) : Option Int :=
  match trimPadding cs with
  | '-' :: digits => (readNat? digits).map fun n => -(n : Int)
  | '+' :: digits => (readNat? digits).map fun n => (n : Int)
  | digits => (readNat? digits).map fun n => (n : Int)

/-! ## Floating-point numbers -/

def floatOfDigits (negative : Bool) (whole fraction : List Char) : Binary64 :=
  Binary64.ofDecimal negative (natOfDigits (whole ++ fraction)) (-fraction.length)

def readExponent? : List Char → Option Int
  | '-' :: digits => if digits.isEmpty then none else some (-(natOfDigits digits : Int))
  | '+' :: digits => if digits.isEmpty then none else some (natOfDigits digits)
  | digits => if digits.isEmpty then none else some (natOfDigits digits)

/-- A sign, digits, a fraction and an exponent, of which the last two may be left out. -/
def readFinite? (negative : Bool) (cs : List Char) : Option Binary64 :=
  let whole := cs.takeWhile isDigit
  let rest := cs.dropWhile isDigit
  let (fraction, rest) := match rest with
    | '.' :: more => (more.takeWhile isDigit, more.dropWhile isDigit)
    | _ => ([], rest)
  let exponent? := match rest with
    | [] => some 0
    | c :: more => if c = 'e' ∨ c = 'E' then readExponent? more else none
  exponent?.map fun e =>
    Binary64.ofDecimal negative (natOfDigits (whole ++ fraction)) (e - fraction.length)

def readFloat? (cs : List Char) : Option Binary64 :=
  match cs with
  | '-' :: rest => unsigned true rest
  | '+' :: rest => unsigned false rest
  | rest => unsigned false rest
where
  unsigned (negative : Bool) (cs : List Char) : Option Binary64 :=
    if cs = "inf".toList then some (.infinite negative)
    else if cs = "nan".toList then some (.nan 0)
    else readFinite? negative cs

end Stencil
