import Stencil.Proofs.Markup.Lexemes

/-!
# Names as expressions

A name that starts with a letter or an underscore stands for a variable, unless it is a keyword. Any
other name is read as a number, or not at all. In quotes and brackets every name stands for a
variable.
-/

namespace Stencil

open Text Lexeme

/-- What tags may bind a value to: letters and digits of any script, underscores and dashes. -/
structure IsTarget (cs : List Char) : Prop where
  ne_nil : cs ≠ []
  chars : ∀ c ∈ cs, isNameChar c = true

theorem IsTarget.trim_eq {cs : List Char} (h : IsTarget cs) : trim cs = cs :=
  trim_eq_self fun c hc => not_isBlank_of_isNameChar (h.chars c hc)

/-- The name as a text in brackets. -/
def bracketed (cs : List Char) : List Char := '[' :: '\'' :: (cs ++ ['\'', ']'])

namespace Expr

section

variable {cs : List Char} {e : Expr} {s : Setting} {v : Value}

/-! ## Names on their own -/

theorem mem_bracketed {c : Char} (h : c ∈ bracketed cs) : c ∈ cs ∨ c ∈ ['[', '\'', ']'] := by
  simp only [bracketed, List.mem_cons, List.mem_append, List.not_mem_nil, or_false] at h ⊢
  tauto

end

end Expr

end Stencil
