/-! # The order of texts -/

namespace Stencil.Text

/-- By code point. -/
def order (s t : String) : Ordering :=
  if s < t then .lt else if s = t then .eq else .gt

def sorted (texts : List String) : List String := texts.mergeSort fun a b => !decide (b < a)

end Stencil.Text
