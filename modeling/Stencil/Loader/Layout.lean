import Stencil.Error.Pattern
import Stencil.Number.Power
import Stencil.Text.Digit

/-! # Layouts -/

namespace Stencil

open Text

/-! ## Numbers in patterns -/

/-- The largest number that a pattern may hold. -/
def maxPatternNumber : Nat := twoPow 63 - 1

/-- The number that the digits at the start write, zero without any, and what follows them. -/
def leadingNumber? (cs : List Char) : Option (Nat × List Char) :=
  let n := natOfDigits (cs.takeWhile isDigit)
  if n ≤ maxPatternNumber then some (n, cs.dropWhile isDigit) else none

/-! ## Layouts -/

inductive Alignment
  | left
  | right
  | middle
  | afterSign
deriving DecidableEq, Repr

def alignment? : Char → Option Alignment
  | '<' => some .left
  | '>' => some .right
  | '^' => some .middle
  | '=' => some .afterSign
  | _ => none

/-- How wide a text is made, and how much of it is kept. -/
structure Layout where
  fill : Char
  alignment : Alignment
  width : Nat
  precision : Option Nat
deriving DecidableEq, Repr

namespace Layout

/-- Padding ends here; no file has a name with as much of it. -/
def maxPadding : Nat := twoPow 20

def apply (l : Layout) (cs : List Char) : List Char :=
  let kept := match l.precision with
    | some n => cs.take n
    | none => cs
  let missing := min (l.width - kept.length) maxPadding
  match l.alignment with
  | .right => List.replicate missing l.fill ++ kept
  | .middle =>
    List.replicate (missing / 2) l.fill ++ kept ++ List.replicate (missing - missing / 2) l.fill
  | _ => kept ++ List.replicate missing l.fill

/-! ## Reading -/

/-- A fill character and an alignment, an alignment alone, or neither. -/
def readFill (cs : List Char) : Option Char × Option Alignment × List Char :=
  match cs with
  | c :: a :: rest =>
    match alignment? a with
    | some found => (some c, some found, rest)
    | none => readAlignment cs
  | cs => readAlignment cs
where
  readAlignment : List Char → Option Char × Option Alignment × List Char
    | a :: rest =>
      match alignment? a with
      | some found => (none, some found, rest)
      | none => (none, none, a :: rest)
    | [] => (none, none, [])

/-- What follows one of these marks, with the mark, if one stands at the start. -/
def readMark (marks cs : List Char) : Option Char × List Char :=
  match cs with
  | c :: rest => if marks.contains c then (some c, rest) else (none, cs)
  | [] => (none, [])

/-- The separator of digits, which a text does not have; both at once are refused before that. -/
def readSeparator (cs : List Char) : Except LayoutFault (Option Char × List Char) :=
  match cs with
  | ',' :: '_' :: _ => .error .twoSeparators
  | '_' :: ',' :: _ => .error .twoSeparators
  | cs => .ok (readMark [',', '_'] cs)

def readNumber (cs : List Char) : Except LayoutFault (Nat × List Char) :=
  match leadingNumber? cs with
  | some found => .ok found
  | none => .error .tooManyDigits

def readPrecision (cs : List Char) : Except LayoutFault (Option Nat × List Char) :=
  match cs with
  | '.' :: rest => do
    let (n, after) ← readNumber rest
    if (rest.takeWhile isDigit).isEmpty then .error .noPrecision else .ok (some n, after)
  | cs => .ok (none, cs)

/-- The forms of numbers, with which a separator of digits may stand. Zero is the form left open. -/
def separates (mark form : Char) : Bool :=
  ['d', 'e', 'f', 'g', 'E', 'G', '%', 'F', '\x00'].contains form ||
    (mark = '_' && ['b', 'o', 'x', 'X'].contains form)

/-- What a layout for a text may not ask for, in the order in which it is noticed. -/
def checkMarks (sign zeroSign alternate : Option Char) (alignment : Option Alignment) :
    Except LayoutFault Unit :=
  if sign = some ' ' then .error .space
  else if sign.isSome then .error .sign
  else if zeroSign.isSome then .error .zeroSign
  else if alternate.isSome then .error .alternate
  else if alignment = some .afterSign then .error .alignment
  else .ok ()

/-- The form of a text is `s`, which may be left out. -/
def checkForm (separator : Option Char) (form : Char) : Except LayoutFault Unit :=
  match separator with
  | some mark =>
    if separates mark form then .error (.unknownForm form) else .error (.separator mark form)
  | none => if form = 's' then .ok () else .error (.unknownForm form)

/--
Reads the layout of a text: fill, alignment, width, precision and form, all of which may be left
out.
-/
def read (cs : List Char) : Except LayoutFault Layout := do
  let (fill, alignment, rest) := readFill cs
  let (sign, rest) := readMark [' ', '+', '-'] rest
  let (zeroSign, rest) := readMark ['z'] rest
  let (alternate, rest) := readMark ['#'] rest
  let (zero, rest) := if fill.isSome then (none, rest) else readMark ['0'] rest
  let (width, rest) ← readNumber rest
  let (separator, rest) ← readSeparator rest
  let (precision, rest) ← readPrecision rest
  match rest with
  | _ :: _ :: _ => .error (.malformed (String.ofList cs))
  | rest =>
    checkForm separator (rest.head?.getD 's')
    checkMarks sign zeroSign alternate alignment
    return ⟨fill.getD (zero.getD ' '), alignment.getD .left, width, precision⟩

end Layout

end Stencil
