import Stencil.Proofs.Expr.Visit
import Stencil.Proofs.Token.Dashes
import Stencil.Proofs.Token.Pieces
import Stencil.Template.Reading

/-!
# Templates of one output marker

A marker around a text is one token, and what is read from it is the expression that the text
writes, or the reason why there is none.
-/

namespace Stencil

open Text

/-- An output marker around a text, with a blank at each end. -/
def outputMarker (cs : List Char) : String :=
  String.ofList ('{' :: '{' :: ' ' :: (cs ++ [' ', '}', '}']))

/-- There are no blanks and no braces in the text. -/
def IsBare (cs : List Char) : Prop := ∀ c ∈ cs, isBlank c = false ∧ c ≠ '}' ∧ c ≠ '{'

section

variable {cs : List Char}

theorem Token.all_outputMarker (h : IsBare cs) :
    Token.all (outputMarker cs) = [⟨.output, outputMarker cs, 1⟩] := by
  have hplain : ∀ c ∈ ' ' :: (cs ++ [' ']), c ≠ '}' ∧ c ≠ '{' := by
    simp only [List.forall_mem_cons, List.forall_mem_append]
    exact ⟨by decide, fun c hc => (h c hc).2, by decide, List.forall_mem_nil _⟩
  have hend : Token.outputEnd? (' ' :: (cs ++ [' ', '}', '}'])) =
      some (' ' :: (cs ++ [' ']), []) := by
    have hrest := Token.outputEnd?_append_plain hplain ['}', '}']
    simpa [Token.outputEnd?] using hrest
  have hmarker : Token.marker? ('{' :: '{' :: ' ' :: (cs ++ [' ', '}', '}'])) =
      some ((.output, '{' :: '{' :: ' ' :: (cs ++ [' ', '}', '}'])), []) := by
    rw [Token.marker?_output, hend]
    simp
  rw [Token.all, outputMarker, String.toList_ofList, Token.pieces_of_marker hmarker,
    Token.pieces_nil]
  rfl

theorem Template.parse_outputMarker (h : IsBare cs) (tags : TagTable) (name file : Option String)
    (isPartial : Bool) :
    Template.parse tags (outputMarker cs) name file isPartial =
      match Expr.parse cs with
      | .ok e => .ok ⟨[.output 1 (String.ofList cs) e], name, file, isPartial, outputMarker cs⟩
      | .error f => .error (f.map (Origin.error ⟨name, outputMarker cs, isPartial⟩ 1)) := by
  have hvalue : (outputMarker cs).toList = '{' :: '{' :: ' ' :: (cs ++ [' ', '}', '}']) :=
    String.toList_ofList
  have hmarkup : Token.markup ⟨.output, outputMarker cs, 1⟩ = cs := by
    have hkind : Token.kind ⟨.output, outputMarker cs, 1⟩ ≠ .text := nofun
    rw [Token.markup_of_blanks hkind hvalue, trim_eq_self fun c hc => (h c hc).1]
  have hleft : Token.trimsLeft ⟨.output, outputMarker cs, 1⟩ = false :=
    Token.trimsLeft_of_blank hvalue
  unfold Template.parse Node.ofTokens
  rw [Token.all_outputMarker h]
  simp only [Reader.readAll, Reader.read, Reader.start, Reader.readMarkup, Reader.trimAround,
    hmarkup, hleft]
  cases Expr.parse cs <;> rfl

end

end Stencil
