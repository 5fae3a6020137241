/-! # Patterns that cannot be filled -/

namespace Stencil

/-- A character after the space and below a bound, or the number of any other. -/
def charText (bound : Nat) (c : Char) : String :=
  if 32 < c.toNat && c.toNat < bound then String.singleton c
  else "\\x" ++ String.ofList (Nat.toDigits 16 c.toNat)

/-! ## Layouts -/

inductive LayoutFault
  | tooManyDigits
  | noPrecision
  | twoSeparators
  | separator (mark form : Char)
  | malformed (layout : String)
  | unknownForm (form : Char)
  | space
  | sign
  | zeroSign
  | alternate
  | alignment
deriving DecidableEq, Repr

def LayoutFault.message : LayoutFault → String
  | .tooManyDigits => "Too many decimal digits in format string"
  | .noPrecision => "Format specifier missing precision"
  | .twoSeparators => "Cannot specify both ',' and '_'."
  | .separator mark form =>
    "Cannot specify '" ++ String.singleton mark ++ "' with '" ++ charText 128 form ++ "'."
  | .malformed layout =>
    "Invalid format specifier '" ++ layout ++ "' for object of type 'str'"
  | .unknownForm form =>
    "Unknown format code '" ++ charText 128 form ++ "' for object of type 'str'"
  | .space => "Space not allowed in string format specifier"
  | .sign => "Sign not allowed in string format specifier"
  | .zeroSign => "Negative zero coercion (z) not allowed in string format specifier"
  | .alternate => "Alternate form (#) not allowed in string format specifier"
  | .alignment => "'=' alignment not allowed in string format specifier"

/-! ## Patterns -/

inductive PatternFault
  | unknownField (name : String)
  | noField
  | noPart (whole name : String)
  | notAPlace
  | notAnIndex
  | noItems (whole : String)
  | outOfRange
  | loneBrace (brace : Char)
  | unclosedField
  | braceInField
  | noConversion
  | afterConversion
  | unknownConversion (conversion : Char)
  | unclosedLayout
  | tooDeep
  | tooManyDigits
  | emptyPart
  | afterBracket
  | noLayout (typeName : String)
  | layout (fault : LayoutFault)
  | tooLarge
deriving DecidableEq, Repr

def PatternFault.message : PatternFault → String
  | .unknownField name => "no field '" ++ name ++ "'"
  | .noField => "no field"
  | .noPart whole name => whole ++ " has no attribute '" ++ name ++ "'"
  | .notAPlace => "string indices must be integers, not 'str'"
  | .notAnIndex => "tuple indices must be integers or slices, not str"
  | .noItems whole => whole ++ " is not subscriptable"
  | .outOfRange => "string index out of range"
  | .loneBrace brace => "Single '" ++ String.singleton brace ++ "' encountered in format string"
  | .unclosedField => "expected '\x7d' before end of string"
  | .braceInField => "unexpected '\x7b' in field name"
  | .noConversion => "end of string while looking for conversion specifier"
  | .afterConversion => "expected ':' after conversion specifier"
  | .unknownConversion conversion => "Unknown conversion specifier " ++ charText 127 conversion
  | .unclosedLayout => "unmatched '\x7b' in format spec"
  | .tooDeep => "Max string recursion exceeded"
  | .tooManyDigits => "Too many decimal digits in format string"
  | .emptyPart => "Empty attribute in format string"
  | .afterBracket => "Only '.' or '[' may follow ']' in format field specifier"
  | .noLayout typeName => "unsupported format string passed to " ++ typeName ++ ".__format__"
  | .layout fault => fault.message
  | .tooLarge => ""

end Stencil
