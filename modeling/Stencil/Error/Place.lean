import Stencil.Terminal

/-! # Places in templates -/

namespace Stencil

def stated? (text : Option String) : Option String := text.filter (!·.isEmpty)

/-- A template without a name shows as this. -/
def namelessTemplate : String := "<template>"

/-- A template and a line of it, as far as they are known. Line zero is no line. -/
def placeText (name : Option String) (line : Option Int) : String :=
  let place := (stated? name).getD namelessTemplate
  match line with
  | some n => if n = 0 then place else place ++ ":" ++ toString n
  | none => place

/-! ## The include chain -/

/-- The including templates from the outside in, each with the line of its include tag. -/
abbrev IncludeChain := List (String × Int)

def chainText (coloured : Bool) (chain : IncludeChain) : String :=
  if chain.isEmpty then ""
  else "\n".intercalate (Terminal.dimmed coloured "Template stack:" ::
    chain.map fun (name, line) =>
      "  • " ++ Terminal.location coloured (name ++ ":" ++ toString line))

end Stencil
