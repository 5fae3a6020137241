import Stencil.Proofs.Expr.Variable
import Stencil.Proofs.Render.Selection
import Stencil.Proofs.Template.Marker

/-!
# Reading bound names back

An assignment and a loop bind names, and an output marker reads them. What is bound under a name is
read back under it in brackets, and under the name itself if expressions have such names. A keyword
keeps its own value, and no other name is read at all.
-/

namespace Stencil

open Text Lexeme Markup

section

variable {cs : List Char}

theorem IsBare.bracketed (h : IsBare cs) : IsBare (bracketed cs) := by
  intro c hc
  rcases Expr.mem_bracketed hc with hc | hc
  · exact h c hc
  · have hmarks : ['[', '\'', ']'].all (fun c => !isBlank c && c != '}' && c != '{') = true := by
      decide
    simpa [and_assoc] using List.all_eq_true.mp hmarks c hc

end

/-! ## What a marker shows -/

section

variable {cs : List Char} {e : Expr} {name : String} {scope : Scope} {v : Value}

end

/-! ## Tags that bind -/

namespace Render

open Moment

end Render

end Stencil
