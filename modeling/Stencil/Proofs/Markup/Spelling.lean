import Stencil.Proofs.Expr.Writing
import Stencil.Proofs.Markup.Lexemes
import Stencil.Proofs.Markup.Words

/-!
# Expressions as fragments

An expression that is written without blanks, commas and bars is one fragment. If it starts with a
quote it is a quoted text and nothing else, which is why a fragment may end with that text.
-/

namespace Stencil

open Text Lexeme Markup

/-! ## Quoted texts that are expressions -/

section

variable {mark : Char} {body cs more : List Char}

theorem Lexeme.isQuoted_of_isQuote {l : Lexeme} (h : l.IsWhole) (hmark : isQuote mark = true)
    (hchars : l.chars = mark :: more) : ∃ body, l = .quoted mark body := by
  have hother {c : Char} (hc : isQuote c = false) (heq : c = mark) : False := by
    simp [heq, hmark] at hc
  cases l with
  | quoted quote body =>
    obtain ⟨rfl, -⟩ := List.cons.inj hchars
    exact ⟨body, rfl⟩
  | number negative whole fraction =>
    cases negative with
    | true => exact (hother (by decide) (List.cons.inj hchars).1).elim
    | false =>
      obtain ⟨c, digits, rfl, hc⟩ := h.1.exists_cons
      exact (hother (isFragmentPart_of_isDigit hc).2 (List.cons.inj hchars).1).elim
  | name chars =>
    obtain ⟨c, stem, hc, -, rfl | rfl⟩ := h
    all_goals
      have hquote := (isFragmentPart_of_isNameChar (isNameChar_of_isNameStart hc)).2
      exact (hother hquote (List.cons.inj hchars).1).elim
  | _ => exact (hother (by decide) (List.cons.inj hchars).1).elim

theorem Expr.allBlank_of_parse_quoted {e : Expr} (hmark : isQuote mark = true)
    (hbody : mark ∉ body) (h : Expr.parse (mark :: body ++ mark :: cs) = .ok e) : AllBlank cs := by
  have hstart : isBlank mark = false := isBlank_of_isQuote hmark
  obtain ⟨ls, hall, hread⟩ := Expr.parse_eq_ok_iff.mp h
  obtain ⟨hspaced, hwhole⟩ := Lexeme.spaced_of_all hall
  replace hspaced := (Lexeme.spaced_trim hwhole).mp hspaced
  generalize htext : mark :: body ++ mark :: cs = text at hspaced
  cases hspaced with
  | nil hblanks =>
    have hblank := hblanks mark (by simp [← htext])
    cases hstart.symm.trans hblank
  | @cons blanks rest l ls hblanks hspaced =>
    -- The first lexeme stands at the quote, so it is the quoted text.
    cases blanks with
    | cons blank blanks =>
      obtain ⟨rfl, -⟩ := List.cons.inj htext
      cases hstart.symm.trans (hblanks mark List.mem_cons_self)
    | nil =>
      have hl := hwhole l List.mem_cons_self
      obtain ⟨c, more, hchars, -⟩ := exists_first hl
      rw [hchars] at htext
      obtain ⟨rfl, -⟩ := List.cons.inj htext
      obtain ⟨quoted, rfl⟩ := isQuoted_of_isQuote hl hmark hchars
      rw [← hchars] at htext
      have hfirst := quoted?_of_quote hmark hl.2 rest
      have hsame := quoted?_of_quote hmark hbody cs
      have htext' : mark :: body ++ mark :: cs = mark :: quoted ++ mark :: rest := by
        simpa [chars] using htext
      rw [htext', hfirst] at hsame
      obtain ⟨-, rfl⟩ := Prod.mk.inj (Option.some.inj hsame)
      rcases ofLexemes_eq_ok_iff.mp hread with ⟨hnil, -⟩ | hderives
      · cases hnil
      · cases hderives
        cases hspaced with
        | nil hblanks => exact hblanks

end

namespace Markup

/-! ## Where a fragment ends -/

/-- No fragment goes on with this text. -/
def EndsFragment (rest : List Char) : Prop :=
  ∀ c ∈ rest.head?, isFragmentPart c = false ∧ isQuote c = false

theorem EndsFragment.takeRun_eq {rest : List Char} (h : EndsFragment rest) :
    takeRun isFragmentPart rest = ([], rest) := by
  cases rest with
  | nil => exact takeRun_nil _
  | cons c rest =>
    obtain ⟨hpart, hquote⟩ := h c rfl
    exact takeRun_of_not_plain (quoted?_cons_of_not_isQuote hquote rest) hpart

theorem IsRun.exists_cons {run : List Char} (hrun : IsRun isFragmentPart run) (hne : run ≠ []) :
    ∃ c more, run = c :: more ∧ isBlank c = false := by
  cases hrun with
  | nil => exact absurd rfl hne
  | plain hpart hc hcs => exact ⟨_, _, rfl, isBlank_of_isFragmentPart hpart⟩
  | @quoted mark body cs hmark hbody hcs =>
    exact ⟨mark, _, rfl, isBlank_of_isQuote hmark⟩

theorem IsRun.exists_concat {run : List Char} (hrun : IsRun isFragmentPart run)
    (hne : run ≠ []) : ∃ before c, run = before ++ [c] ∧ isBlank c = false := by
  induction hrun with
  | nil => exact absurd rfl hne
  | @plain c cs hpart hc hcs ih =>
    rcases eq_or_ne cs [] with rfl | hcs
    · exact ⟨[], c, rfl, isBlank_of_isFragmentPart hpart⟩
    · obtain ⟨before, d, rfl, hd⟩ := ih hcs
      exact ⟨c :: before, d, rfl, hd⟩
  | @quoted mark body cs hmark hbody hcs ih =>
    rcases eq_or_ne cs [] with rfl | hcs
    · exact ⟨mark :: body, mark, rfl, isBlank_of_isQuote hmark⟩
    · obtain ⟨before, d, rfl, hd⟩ := ih hcs
      exact ⟨mark :: body ++ mark :: before, d, by simp, hd⟩

theorem IsRun.trim_eq {run : List Char} (hrun : IsRun isFragmentPart run) : trim run = run := by
  rcases eq_or_ne run [] with rfl | hne
  · rfl
  obtain ⟨c, more, hrun', hc⟩ := hrun.exists_cons hne
  obtain ⟨before, d, hconcat, hd⟩ := hrun.exists_concat hne
  rw [trim, hrun', trimStart_cons hc, ← hrun', hconcat, trimEnd_append hd]
  rfl

/-! ## Spelled expressions -/

/-- An expression and a text that writes it, with no blank, comma or bar outside of quoted texts. -/
structure Spelling where
  text : List Char
  expr : Expr
  ne_nil : text ≠ []
  compact : IsRun isFragmentPart text
  reads : Expr.parse text = .ok expr

namespace Spelling

variable {rest : List Char}

theorem exists_cons (w : Spelling) : ∃ c more, w.text = c :: more ∧ isBlank c = false :=
  w.compact.exists_cons w.ne_nil

theorem trimStart_append (w : Spelling) (rest : List Char) :
    trimStart (w.text ++ rest) = w.text ++ rest := by
  obtain ⟨c, more, htext, hc⟩ := w.exists_cons
  rw [htext, List.cons_append, trimStart_cons hc]

theorem eq_of_quoted? (w : Spelling) {found : List Char × List Char}
    (h : quoted? (w.text ++ rest) = some found) : found = (w.text, rest) := by
  obtain ⟨text, e, hne, hcompact, hreads⟩ := w
  cases hcompact with
  | nil => exact absurd rfl hne
  | plain hpart hc hcs =>
    rw [List.cons_append, quoted?_cons_of_not_isQuote hc] at h
    cases h
  | @quoted mark body cs hmark hbody hcs =>
    have hblanks := Expr.allBlank_of_parse_quoted hmark hbody hreads
    obtain rfl : cs = [] := by
      by_contra hne
      obtain ⟨c, more, rfl, hc⟩ := hcs.exists_cons hne
      cases hc.symm.trans (hblanks c List.mem_cons_self)
    rw [List.append_assoc, List.singleton_append, quoted?_of_quote hmark hbody] at h
    exact (Option.some.inj h).symm

/-- A spelled expression is read as one fragment, if the text after it does not go on with it. -/
theorem fragment?_append (w : Spelling) (hrest : EndsFragment rest) :
    fragment? (w.text ++ rest) = some (w.text, rest) := by
  unfold fragment?
  split
  · next found hquoted =>
    rw [w.eq_of_quoted? hquoted]
  · rw [w.compact.takeRun_append, hrest.takeRun_eq, List.append_nil, if_neg w.ne_nil]

end Spelling

end Markup

/-! ## Every expression can be spelled -/

namespace Expr

def Phrase.inMarkup (markup : String) : Phrase → Phrase
  | .expr e => .expr (e.inMarkup markup)
  | .path keys => .path (pathInMarkup markup keys)

theorem Derives.inMarkup {markup : String} {phrase : Phrase} {ls : List Lexeme}
    (h : Derives markup phrase ls) (markup' : String) :
    Derives markup' (phrase.inMarkup markup') ls := by
  induction h with
  | quoted mark body => exact .quoted mark body
  | number hv => exact .number hv
  | keyword hkeyword => exact .keyword hkeyword
  | range hstart hstop ihstart ihstop => exact .range ihstart ihstop
  | @named chars path ls hlone hpath ih =>
    refine .named (fun hnil => hlone ?_) ih
    cases path with
    | nil => rfl
    | cons key path => cases key <;> cases hnil
  | computed hroot hpath ihroot ihpath => exact .computed ihroot ihpath
  | done => exact .done
  | member hpath ih => exact .member ih
  | index he hpath ihe ihpath => exact .index ihe ihpath

end Expr

namespace Markup

/-- The lexemes that derive an expression, with nothing between them. -/
def Spelling.ofDerivation {markup : String} {e : Expr} {ls : List Lexeme}
    (h : Expr.Derives markup (.expr e) ls) (hwhole : ∀ l ∈ ls, l.IsWhole) : Spelling where
  text := ls.flatMap chars
  expr := e.inMarkup (String.ofList (ls.flatMap chars))
  ne_nil := by
    obtain ⟨l, more, rfl⟩ := List.exists_cons_of_ne_nil h.ne_nil
    obtain ⟨c, stem, hchars, -⟩ := exists_first (hwhole l List.mem_cons_self)
    simp [hchars]
  compact := isRun_flatMap_chars hwhole
  reads := by
    refine Expr.parse_of_derives (spaced_flatMap_chars ls) hwhole ?_
    rw [(isRun_flatMap_chars hwhole).trim_eq]
    exact h.inMarkup _

/-- A plain tree can be written down, and so it can be spelled. -/
def Spelling.ofPlain (e : Expr) (h : e.IsPlain) : Spelling :=
  .ofDerivation (Expr.derives_lexemes h "").1 (Expr.derives_lexemes h "").2

theorem withoutBlanks_of_spaced {ls : List Lexeme} {cs : List Char} (h : Spaced ls cs)
    (hwhole : ∀ l ∈ ls, l.IsWhole) : withoutBlanks cs = ls.flatMap chars := by
  induction h with
  | nil hblanks => exact withoutBlanks_of_allBlank hblanks
  | cons hblanks hspaced ih =>
    obtain ⟨hl, hls⟩ := List.forall_mem_cons.mp hwhole
    rw [withoutBlanks_append (isBalanced_of_allBlank hblanks), withoutBlanks_of_allBlank hblanks,
      withoutBlanks_append (isRun_chars hl).isBalanced, withoutBlanks_of_isRun (isRun_chars hl),
      ih hls]
    rfl

theorem exists_spelling {markup : List Char} {e : Expr} (h : Expr.parse markup = .ok e) :
    ∃ w : Spelling, w.expr = e.inMarkup (String.ofList w.text) ∧
      (AllBlank markup ∨ w.text = withoutBlanks markup) := by
  obtain ⟨ls, hall, hread⟩ := Expr.parse_eq_ok_iff.mp h
  obtain ⟨hspaced, hwhole⟩ := spaced_of_all hall
  replace hspaced := (spaced_trim hwhole).mp hspaced
  rcases Expr.ofLexemes_eq_ok_iff.mp hread with ⟨rfl, rfl⟩ | hderives
  · have hnil := Expr.derives_word (v := .nil) rfl ""
    cases hspaced with
    | nil hblanks =>
      exact ⟨.ofDerivation hnil.1 (List.forall_mem_singleton.mpr hnil.2), rfl, .inl hblanks⟩
  · exact ⟨.ofDerivation hderives hwhole, rfl, .inr (withoutBlanks_of_spaced hspaced hwhole).symm⟩

end Markup

end Stencil
