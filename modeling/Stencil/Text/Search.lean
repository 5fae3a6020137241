/-! # Finding text in text -/

namespace Stencil.Text

/-- The first list stands somewhere in the second, in one piece. -/
def occursIn (needle : List Char) : List Char → Bool
  | [] => needle.isEmpty
  | c :: rest => needle.isPrefixOf (c :: rest) || occursIn needle rest

/-- The part after the last `c`, or all of a text without one. -/
def afterLast (c : Char) (cs : List Char) : List Char :=
  (cs.reverse.takeWhile (· ≠ c)).reverse

/-- The part before the last `c`, or nothing. -/
def beforeLast (c : Char) (cs : List Char) : List Char :=
  ((cs.reverse.dropWhile (· ≠ c)).drop 1).reverse

end Stencil.Text
