import Stencil.Proofs.Expr.Grammar
import Stencil.Proofs.Markup.Run

/-!
# Expressions as runs

No lexeme has a blank, a comma, a bar or a quote in it that does not stand in a quoted text. So an
expression closes all its quotes, and written without blanks it is one run.
-/

namespace Stencil

open Text Markup

/-! ## Lexemes -/

namespace Lexeme

variable {c : Char} {l : Lexeme} {ls : List Lexeme} {cs : List Char}

theorem isFragmentPart_of_isDigit (h : isDigit c = true) :
    isFragmentPart c = true ∧ isQuote c = false := by
  have hdigit := forall_isDigit (p := fun c => isFragmentPart c && !isQuote c) (by decide +kernel) h
  simpa using hdigit

theorem isFragmentPart_of_isNameChar (h : isNameChar c = true) :
    isFragmentPart c = true ∧ isQuote c = false := by
  have hother : c ∉ ['"', '\'', ',', '|'] := fun hmem => by
    have hnone : ['"', '\'', ',', '|'].all (!isNameChar ·) = true := by decide +kernel
    simpa [h] using List.all_eq_true.mp hnone c hmem
  simp only [List.mem_cons, List.not_mem_nil, or_false, not_or] at hother
  simp [isFragmentPart, isQuote, not_isBlank_of_isNameChar h, hother]

theorem isRun_of_isDigits (h : IsDigits cs) : IsRun isFragmentPart cs :=
  .of_forall fun c hc => isFragmentPart_of_isDigit (h.2 c hc)

theorem isRun_of_isName (h : IsName cs) : IsRun isFragmentPart cs := by
  obtain ⟨c, stem, hc, hstem, hcs⟩ := h
  have hall : ∀ d ∈ c :: stem, isNameChar d = true :=
    List.forall_mem_cons.mpr ⟨isNameChar_of_isNameStart hc, hstem⟩
  have hname : IsRun isFragmentPart (c :: stem) :=
    .of_forall fun d hd => isFragmentPart_of_isNameChar (hall d hd)
  rcases hcs with rfl | rfl
  · exact hname
  · exact hname.append (.plain rfl rfl .nil)

theorem isRun_chars (h : l.IsWhole) : IsRun isFragmentPart l.chars := by
  have hmark {c : Char} (hc : isFragmentPart c = true ∧ isQuote c = false) :
      IsRun isFragmentPart [c] := .plain hc.1 hc.2 .nil
  cases l with
  | quoted mark body => exact .quoted (isQuote_iff.mpr h.1) h.2 .nil
  | number negative whole fraction =>
    obtain ⟨hwhole, hfraction⟩ := h
    refine IsRun.append (IsRun.append ?_ (isRun_of_isDigits hwhole)) ?_
    · cases negative with
      | true => exact hmark (by decide)
      | false => exact .nil
    · cases fraction with
      | none => exact .nil
      | some digits => exact .plain rfl rfl (isRun_of_isDigits (hfraction digits rfl))
  | name chars => exact isRun_of_isName h
  | dots => exact .plain rfl rfl (hmark (by decide))
  | _ => exact hmark (by decide)

theorem isRun_flatMap_chars (h : ∀ l ∈ ls, l.IsWhole) :
    IsRun isFragmentPart (ls.flatMap chars) := by
  induction ls with
  | nil => exact .nil
  | cons l ls ih =>
    obtain ⟨hl, hls⟩ := List.forall_mem_cons.mp h
    exact (isRun_chars hl).append (ih hls)

theorem spaced_flatMap_chars (ls : List Lexeme) : Spaced ls (ls.flatMap chars) := by
  induction ls with
  | nil => exact .nil nofun
  | cons l ls ih =>
    have hnone : AllBlank [] := nofun
    exact Spaced.cons hnone ih

theorem isBalanced_of_allBlank (h : AllBlank cs) : IsBalanced cs :=
  IsRun.of_forall fun c hc => ⟨rfl, not_isQuote_of_isBlank (h c hc)⟩

theorem Spaced.isBalanced (h : Spaced ls cs) (hwhole : ∀ l ∈ ls, l.IsWhole) : IsBalanced cs := by
  induction h with
  | nil hblanks => exact isBalanced_of_allBlank hblanks
  | cons hblanks hspaced ih =>
    obtain ⟨hl, hls⟩ := List.forall_mem_cons.mp hwhole
    exact IsRun.append (isBalanced_of_allBlank hblanks)
      (IsRun.append (isRun_chars hl).isBalanced (ih hls))

theorem isBalanced_of_all (h : all (trim cs) = .ok ls) : IsBalanced cs := by
  obtain ⟨hspaced, hwhole⟩ := spaced_of_all h
  exact ((spaced_trim hwhole).mp hspaced).isBalanced hwhole

end Lexeme

end Stencil
