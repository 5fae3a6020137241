import Stencil.Proofs.Condition.Clauses
import Stencil.Proofs.Markup.Lexemes
import Stencil.Proofs.Markup.Words

/-!
# Open quotes in a condition

A condition is read word by word, and what stands between the words is never looked at. So a quote
that is never closed is no error, as it would be in an expression; it counts as a blank.
-/

namespace Stencil

open Markup

/-! ## Texts that are not balanced -/

theorem Chain.parse_of_isLeftOpen {before after : List Char} {mark : Char}
    (h : IsLeftOpen before mark after) (c : Chain) :
    Chain.parse (before ++ mark :: after) = .ok c ↔
      Chain.parse (before ++ ' ' :: after) = .ok c := by
  rw [parse_eq_ok_iff, parse_eq_ok_iff, h.words_eq]

theorem Expr.parse_eq_error_of_not_isBalanced {markup : List Char} (h : ¬ IsBalanced markup) :
    ∃ fault, Expr.parse markup = .error (.malformed fault) := by
  cases hall : Lexeme.all (Text.trim markup) with
  | error fault =>
    exact ⟨.expression fault (String.ofList (Text.trim markup)), by simp only [parse, hall]⟩
  | ok ls => exact absurd (Lexeme.isBalanced_of_all hall) h

/--
The words that write a chain are its text without blanks exactly if the text closes all its quotes.
If it does not, no expression is written so, but a condition is read as if a blank stood in the
place of the quote.
-/
theorem Chain.words_leave_out_open_quotes (markup : List Char) :
    (∀ c, Chain.parse markup = .ok c ↔ AreWritten c.first c.rest (words markup)) ∧
    ((words markup).flatten = withoutBlanks markup ↔ IsBalanced markup) ∧
    (¬ IsBalanced markup ↔ ∃ before mark after, markup = before ++ mark :: after ∧
      IsLeftOpen before mark after ∧
      (∀ c, Chain.parse markup = .ok c ↔ Chain.parse (before ++ ' ' :: after) = .ok c) ∧
      ∃ fault, Expr.parse markup = .error (.malformed fault)) := by
  refine ⟨fun c => parse_eq_ok_iff, flatten_words_eq_iff markup, ?_, ?_⟩
  · intro h
    obtain ⟨before, mark, after, rfl, hopen⟩ := (exists_isLeftOpen markup).resolve_left h
    exact ⟨before, mark, after, rfl, hopen, parse_of_isLeftOpen hopen,
      Expr.parse_eq_error_of_not_isBalanced h⟩
  · rintro ⟨before, mark, after, rfl, hopen, -⟩
    exact hopen.not_isBalanced

theorem Chain.quote_is_left_out :
    Chain.parse "a\"".toList = .ok ⟨⟨.lookup (.name "a") [] "a", none⟩, []⟩ ∧
      (words "a\"".toList).flatten ≠ withoutBlanks "a\"".toList ∧
      Expr.parse "a\"".toList =
        .error (.malformed (.expression (.unexpectedChar '"') "a\"")) := by
  have hwords : words "a\"".toList = [['a']] := by
    with_unfolding_all rfl
  have hall : withoutBlanks "a\"".toList = ['a', '"'] := by
    with_unfolding_all rfl
  refine ⟨?_, ?_, ?_⟩
  · with_unfolding_all rfl
  · rw [hwords, hall]
    decide
  · with_unfolding_all rfl

end Stencil
