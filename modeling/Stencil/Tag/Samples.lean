import Stencil.Tag
import Stencil.Text.Upper
import Stencil.Value.Printing

/-! # Two tags to copy from -/

namespace Stencil.InlineTag

/--
Writes the variable that its markup names, in upper case, and nothing for a value without a text.
-/
def shout (host : Host) : InlineTag where
  name := "Shout"
  write markup view :=
    let v := (view.scope.find? markup).getD (.text "")
    Text.upper ((v.display? host).getD "")

/-- Writes which template it is in, whether that is a partial, and how deep it is. -/
def whereabouts : InlineTag where
  name := "Where"
  write _ view :=
    let isPartial := if view.isPartial then "True" else "False"
    ":".intercalate [view.template.getD "None", isPartial, toString view.depth]

end Stencil.InlineTag
