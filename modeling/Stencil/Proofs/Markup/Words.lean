import Stencil.Proofs.Markup.Run

/-!
# What words are made of

Words lose what stands between them: blanks, and quotes that are never closed. Such a quote ends a
word, as a blank does.
-/

namespace Stencil.Markup

open Text

/-! ## What is kept of a text -/

/-- The quoted texts, and of all other characters those that are to be kept. -/
def keepOutside (keep : Char → Bool) (cs : List Char) : List Char :=
  match cs with
  | [] => []
  | c :: rest =>
    match _h : quoted? (c :: rest) with
    | some (q, after) => q ++ keepOutside keep after
    | none => if keep c then c :: keepOutside keep rest else keepOutside keep rest
  termination_by cs.length
  decreasing_by
    · exact quoted?_length _h
    · exact Nat.lt_succ_self _
    · exact Nat.lt_succ_self _

/-- The text without its blanks outside of quoted texts. -/
def withoutBlanks (cs : List Char) : List Char := keepOutside (fun c => !isBlank c) cs

section

variable {keep plain : Char → Bool} {c mark : Char} {cs q before after run : List Char}

theorem keepOutside_of_quoted? (h : quoted? cs = some (q, after)) :
    keepOutside keep cs = q ++ keepOutside keep after := by
  cases cs with
  | nil => cases h
  | cons c cs =>
    rw [keepOutside]
    split
    · next heq =>
      cases h.symm.trans heq
      rfl
    · next heq => cases h.symm.trans heq

theorem keepOutside_of_none (h : quoted? (c :: cs) = none) :
    keepOutside keep (c :: cs) =
      if keep c then c :: keepOutside keep cs else keepOutside keep cs := by
  rw [keepOutside]
  split
  · next heq => cases h.symm.trans heq
  · rfl

theorem keepOutside_eq_takeRun (cs : List Char) :
    keepOutside plain cs = (takeRun plain cs).1 ++ keepOutside plain (takeRun plain cs).2 := by
  fun_induction takeRun plain cs with
  | case1 => simp
  | case2 c rest q after hquoted run left heq ih =>
    rw [heq] at ih
    rw [keepOutside_of_quoted? hquoted, ih, List.append_assoc]
  | case3 c rest hquoted hc run left heq ih =>
    rw [heq] at ih
    rw [keepOutside_of_none hquoted, if_pos hc, ih, List.cons_append]
  | case4 c rest hquoted hc => rfl

theorem withoutBlanks_append (h : IsBalanced before) (after : List Char) :
    withoutBlanks (before ++ after) = withoutBlanks before ++ withoutBlanks after := by
  unfold withoutBlanks
  induction h with
  | nil => rw [List.nil_append, keepOutside, List.nil_append]
  | @plain c cs hplain hc hcs ih =>
    have hquoted := quoted?_cons_of_not_isQuote hc
    rw [List.cons_append, keepOutside_of_none (hquoted _), keepOutside_of_none (hquoted _), ih]
    split <;> rfl
  | @quoted mark body cs hmark hbody hcs ih =>
    have hquoted := quoted?_of_quote hmark hbody
    rw [quoted_append, keepOutside_of_quoted? (hquoted _), keepOutside_of_quoted? (hquoted _), ih]
    exact (List.append_assoc _ _ _).symm

theorem withoutBlanks_of_allBlank {blanks : List Char} (h : AllBlank blanks) :
    withoutBlanks blanks = [] := by
  unfold withoutBlanks
  induction blanks with
  | nil => rw [keepOutside]
  | cons c cs ih =>
    obtain ⟨hc, hcs⟩ := List.forall_mem_cons.mp h
    have hquoted := quoted?_cons_of_not_isQuote (not_isQuote_of_isBlank hc) cs
    rw [keepOutside_of_none hquoted, hc, if_neg (by simp), ih hcs]

theorem withoutBlanks_of_isRun (h : IsRun isFragmentPart run) :
    withoutBlanks run = run := by
  unfold withoutBlanks
  induction h with
  | nil => rw [keepOutside]
  | plain hpart hc hcs ih =>
    have hblank := isBlank_of_isFragmentPart hpart
    rw [keepOutside_of_none (quoted?_cons_of_not_isQuote hc _), hblank, if_pos (by simp), ih]
  | quoted hmark hbody hcs ih =>
    rw [keepOutside_of_quoted? (quoted?_of_quote hmark hbody _), ih, List.append_assoc,
      List.singleton_append]

/-! ## The words of a text -/

theorem words_nil : words [] = [] := by
  rw [words]

theorem words_of_run_eq_nil (h : (takeRun isWordPart (c :: cs)).1 = []) :
    words (c :: cs) = words cs := by
  rw [words, dif_pos h]

theorem words_of_run_ne_nil (h : (takeRun isWordPart cs).1 ≠ []) :
    words cs = (takeRun isWordPart cs).1 :: words (takeRun isWordPart cs).2 := by
  cases cs with
  | nil => exact absurd (congrArg Prod.fst (takeRun_nil isWordPart)) h
  | cons c cs => rw [words, dif_neg h]

theorem of_takeRun_eq_nil (h : (takeRun plain (c :: cs)).1 = []) :
    quoted? (c :: cs) = none ∧ plain c = false := by
  cases hquoted : quoted? (c :: cs) with
  | some found =>
    obtain ⟨mark, body, -, -, hq, -⟩ := exists_of_quoted? hquoted
    rw [takeRun_of_quoted? hquoted, hq] at h
    cases h
  | none =>
    refine ⟨rfl, ?_⟩
    by_contra hc
    rw [takeRun_of_plain hquoted (by simpa using hc)] at h
    cases h

theorem flatten_words (cs : List Char) : (words cs).flatten = keepOutside isWordPart cs := by
  fun_induction words cs with
  | case1 => rw [keepOutside, List.flatten_nil]
  | case2 c rest hnil ih =>
    obtain ⟨hquoted, hc⟩ := of_takeRun_eq_nil hnil
    rw [ih, keepOutside_of_none hquoted, hc, if_neg Bool.false_ne_true]
  | case3 c rest hne ih => rw [List.flatten_cons, ih, ← keepOutside_eq_takeRun]

theorem isWordPart_eq (h : isQuote c = false) : isWordPart c = !isBlank c := by
  simp [isWordPart, h]

theorem keepOutside_sublist (cs : List Char) :
    (keepOutside isWordPart cs).Sublist (withoutBlanks cs) ∧
      (keepOutside isWordPart cs = withoutBlanks cs → IsBalanced cs) := by
  unfold withoutBlanks
  fun_induction keepOutside isWordPart cs with
  | case1 => exact ⟨List.nil_sublist _, fun _ => .nil⟩
  | case2 c rest q after hquoted ih =>
    obtain ⟨mark, body, hmark, hbody, -, hcs⟩ := exists_of_quoted? hquoted
    rw [keepOutside_of_quoted? hquoted, hcs]
    exact ⟨ih.1.append_left q, fun heq => .quoted hmark hbody (ih.2 (List.append_cancel_left heq))⟩
  | case3 c rest hquoted hc ih =>
    have hparts : isBlank c = false ∧ isQuote c = false := by simpa [isWordPart] using hc
    rw [keepOutside_of_none hquoted, hparts.1]
    refine ⟨ih.1.cons_cons c, fun heq => .plain rfl hparts.2 (ih.2 (List.cons.inj heq).2)⟩
  | case4 c rest hquoted hc ih =>
    rw [keepOutside_of_none hquoted]
    by_cases hblank : isBlank c = true
    · rw [hblank, if_neg (by simp)]
      exact ⟨ih.1, fun heq => .plain rfl (not_isQuote_of_isBlank hblank) (ih.2 heq)⟩
    · -- What is left out here is a quote, which is no blank.
      rw [if_pos (by simpa using hblank)]
      refine ⟨ih.1.cons c, fun heq => ?_⟩
      have hlength := ih.1.length_le
      rw [heq, List.length_cons] at hlength
      omega

theorem keepOutside_of_isBalanced (h : IsBalanced cs) :
    keepOutside isWordPart cs = withoutBlanks cs := by
  unfold withoutBlanks
  induction h with
  | nil => rw [keepOutside, keepOutside]
  | plain hplain hc hcs ih =>
    have hquoted := quoted?_cons_of_not_isQuote hc
    rw [keepOutside_of_none (hquoted _), keepOutside_of_none (hquoted _), ih, isWordPart_eq hc]
  | quoted hmark hbody hcs ih =>
    have hquoted := quoted?_of_quote hmark hbody
    rw [keepOutside_of_quoted? (hquoted _), keepOutside_of_quoted? (hquoted _), ih]

/-- Words leave out more than blanks exactly if a quote is never closed. -/
theorem flatten_words_eq_iff (cs : List Char) :
    (words cs).flatten = withoutBlanks cs ↔ IsBalanced cs := by
  rw [flatten_words]
  exact ⟨(keepOutside_sublist cs).2, keepOutside_of_isBalanced⟩

/-! ## Quotes that are never closed -/

/-- A quote that stands outside of quoted texts, and has no other of its kind behind it. -/
structure IsLeftOpen (before : List Char) (mark : Char) (after : List Char) : Prop where
  balanced : IsBalanced before
  quote : isQuote mark = true
  not_mem : mark ∉ after

theorem exists_isLeftOpen (cs : List Char) :
    IsBalanced cs ∨ ∃ before mark after, cs = before ++ mark :: after ∧
      IsLeftOpen before mark after := by
  fun_induction keepOutside (fun _ => true) cs with
  | case1 => exact .inl .nil
  | case2 c rest q after hquoted ih =>
    obtain ⟨mark, body, hmark, hbody, -, hcs⟩ := exists_of_quoted? hquoted
    rw [hcs]
    rcases ih with hafter | ⟨before, last, more, rfl, hopen⟩
    · exact .inl (.quoted hmark hbody hafter)
    · refine .inr ⟨mark :: body ++ mark :: before, last, more, by simp, ?_, hopen.2, hopen.3⟩
      exact .quoted hmark hbody hopen.balanced
  | case3 c rest hquoted hc ih =>
    by_cases hquote : isQuote c = true
    · exact .inr ⟨[], c, rest, rfl, .nil, hquote, quoted?_cons_eq_none_iff.mp hquoted hquote⟩
    · have hplain : isQuote c = false := by simpa using hquote
      rcases ih with hrest | ⟨before, last, more, rfl, hopen⟩
      · exact .inl (.plain rfl hplain hrest)
      · refine .inr ⟨c :: before, last, more, rfl, ?_, hopen.2, hopen.3⟩
        exact .plain rfl hplain hopen.balanced
  | case4 c rest hquoted hc => exact absurd rfl hc

theorem IsLeftOpen.quoted? (h : IsLeftOpen before mark after) :
    quoted? (mark :: after) = none := quoted?_cons_of_not_mem h.not_mem

theorem IsLeftOpen.not_isBalanced (h : IsLeftOpen before mark after) :
    ¬ IsBalanced (before ++ mark :: after) := by
  -- A run over all but quotes goes up to the quote, and would go on if it were closed.
  have hwide : ∀ c, true = true → isQuote c = false → (!isQuote c) = true := by simp
  intro hall
  have hwhole := (hall.mono hwide).takeRun_append []
  have hbefore := (h.balanced.mono hwide).takeRun_append (mark :: after)
  rw [takeRun_of_not_plain h.quoted? (by simp [h.quote])] at hbefore
  rw [List.append_nil, hbefore, takeRun_nil] at hwhole
  cases (Prod.mk.inj hwhole).2

theorem takeRun_append_break (h : IsBalanced before)
    (hbreak : takeRun plain (c :: after) = ([], c :: after)) :
    takeRun plain (before ++ c :: after) =
        ((takeRun plain before).1, (takeRun plain before).2 ++ c :: after) ∧
      IsBalanced (takeRun plain before).2 := by
  induction h with
  | nil =>
    rw [takeRun_nil]
    exact ⟨hbreak, .nil⟩
  | @plain d cs htrue hd hcs ih =>
    have hquoted := quoted?_cons_of_not_isQuote hd
    by_cases hplain : plain d = true
    · rw [List.cons_append, takeRun_of_plain (hquoted _) hplain,
        takeRun_of_plain (hquoted _) hplain, ih.1]
      exact ⟨rfl, ih.2⟩
    · replace hplain : plain d = false := by simpa using hplain
      rw [List.cons_append, takeRun_of_not_plain (hquoted _) hplain,
        takeRun_of_not_plain (hquoted _) hplain]
      exact ⟨rfl, .plain htrue hd hcs⟩
  | @quoted quote body cs hquote hbody hcs ih =>
    have hquoted := quoted?_of_quote hquote hbody
    rw [quoted_append, takeRun_of_quoted? (hquoted _), takeRun_of_quoted? (hquoted _), ih.1]
    exact ⟨rfl, ih.2⟩

theorem words_append_break {before : List Char} (h : IsBalanced before)
    (hbreak : takeRun isWordPart (c :: after) = ([], c :: after)) :
    words (before ++ c :: after) = words before ++ words after := by
  obtain ⟨hrun, hleft⟩ := takeRun_append_break h hbreak
  match before, h with
  | [], _ =>
    rw [words_nil]
    exact words_of_run_eq_nil (congrArg Prod.fst hbreak)
  | d :: rest, h =>
    by_cases hnil : (takeRun isWordPart (d :: rest)).1 = []
    · have hword : (takeRun isWordPart (d :: (rest ++ c :: after))).1 = [] := by
        rw [← List.cons_append, hrun, hnil]
      rw [List.cons_append, words_of_run_eq_nil hword, words_of_run_eq_nil hnil]
      exact words_append_break (h.tail (of_takeRun_eq_nil hnil).1) hbreak
    · have hword : (takeRun isWordPart (d :: rest ++ c :: after)).1 ≠ [] := by rwa [hrun]
      rw [words_of_run_ne_nil hword, words_of_run_ne_nil hnil, hrun]
      exact congrArg _ (words_append_break hleft hbreak)
  termination_by before.length
  decreasing_by
    · exact Nat.lt_succ_self _
    · exact takeRun_length hnil

/-- A quote that is left open ends a word as a blank does, and is no part of any. -/
theorem IsLeftOpen.words_eq (h : IsLeftOpen before mark after) :
    words (before ++ mark :: after) = words (before ++ ' ' :: after) := by
  have hquote : takeRun isWordPart (mark :: after) = ([], mark :: after) :=
    takeRun_of_not_plain h.quoted? (by simp [isWordPart, h.quote])
  have hblank : takeRun isWordPart (' ' :: after) = ([], ' ' :: after) :=
    takeRun_of_not_plain (quoted?_cons_of_not_isQuote rfl after) rfl
  rw [words_append_break h.balanced hquote, words_append_break h.balanced hblank]

end

end Stencil.Markup
