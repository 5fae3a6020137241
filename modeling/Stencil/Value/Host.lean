import Stencil.Value.Basic

/-!
# Objects of the host

What a class of the host decides itself is a parameter: the text of its objects, what they equal,
their order, whether they are keys, numbers or collections. A method of such a class is asked for
nothing but its answer. That it raises, changes something or never ends is left out, and so are
classes that are lists, maps, texts or numbers themselves.
-/

namespace Stencil

namespace Value

inductive Comparison
  | less
  | lessOrEqual
  | greater
  | greaterOrEqual
deriving DecidableEq, Repr

/-- Why a value is no whole number. -/
inductive NotWhole
  | unreadable
  | infinite
deriving DecidableEq, Repr

end Value

/--
How the objects of a host behave. A text is missing where it has a number with too many digits in
it, `badKey?` names the type that can be no key, and objects that are equal are the same key.
-/
structure Host where
  text? : Value → Option String
  literal? : Value → Option String
  equals : Value → Value → Bool
  compare? : Value.Comparison → Value → Value → Option Bool
  badKey? : Value → Option String
  whole? : Value → Except Value.NotWhole Int
  items? : Value → Option (List Value)

/-- Objects that show their class, equal themselves alone, and are neither numbers nor lists. -/
def Host.plain : Host where
  text? v := some ("<" ++ v.typeName ++ ">")
  literal? v := some ("<" ++ v.typeName ++ ">")
  equals v w := v.isSameSingle w
  compare? _ _ _ := none
  badKey? _ := none
  whole? _ := .error .unreadable
  items? _ := none

end Stencil
