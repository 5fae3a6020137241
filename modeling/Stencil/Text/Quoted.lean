import Stencil.Text.Printable

/-! # Quoted text -/

namespace Stencil.Text

/-- The last `width` hexadecimal digits of `n`. -/
def hexDigits (width n : Nat) : List Char :=
  (List.range width).reverse.map fun place => Nat.digitChar (n / Nat.pow 16 place % 16)

/-- One character inside quotes `mark`, escaped if `plain` does not let it stand. -/
def escapeChar (plain : Char → Bool) (mark c : Char) : List Char :=
  if c = mark ∨ c = '\\' then ['\\', c]
  else if c = '\n' then ['\\', 'n']
  else if c = '\r' then ['\\', 'r']
  else if c = '\t' then ['\\', 't']
  else if plain c then [c]
  else if c.toNat < 0x100 then '\\' :: 'x' :: hexDigits 2 c.toNat
  else if c.toNat < 0x10000 then '\\' :: 'u' :: hexDigits 4 c.toNat
  else '\\' :: 'U' :: hexDigits 8 c.toNat

/-- Single quotes, unless the text holds one and no double quote. -/
def quoteMark (s : String) : Char :=
  if s.toList.contains '\'' && !s.toList.contains '"' then '"' else '\''

def quotedWith (plain : Char → Bool) (s : String) : String :=
  let mark := quoteMark s
  String.ofList (mark :: s.toList.flatMap (escapeChar plain mark) ++ [mark])

def quoted (s : String) : String := quotedWith isPrintable s

/-- A text in quotes, in ASCII alone. -/
def quotedAscii (s : String) : String :=
  quotedWith (fun c => isPrintable c && c.toNat < 128) s

end Stencil.Text
