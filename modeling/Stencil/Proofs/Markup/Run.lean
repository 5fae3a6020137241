import Stencil.Markup.Fragment
import Stencil.Proofs.Expr.Lexing

/-!
# Runs of quoted texts

A quote quotes what stands up to the next quote of its kind, and nothing if there is none. A run
goes on over quoted texts, whatever they hold, and over other characters of its kind.
-/

namespace Stencil.Markup

open Text

section

variable {plain : Char → Bool} {c mark : Char} {cs q body run rest after : List Char}

/-! ## Quoted texts -/

theorem isQuote_iff : isQuote c = true ↔ c = '"' ∨ c = '\'' := by
  simp [isQuote]

theorem isBlank_of_isQuote (h : isQuote c = true) : isBlank c = false := by
  rcases isQuote_iff.mp h with rfl | rfl <;> rfl

theorem not_isQuote_of_isBlank (h : isBlank c = true) : isQuote c = false := by
  by_contra hquote
  cases (isBlank_of_isQuote (by simpa using hquote)).symm.trans h

theorem isBlank_of_isFragmentPart (h : isFragmentPart c = true) : isBlank c = false := by
  simp only [isFragmentPart, Bool.and_eq_true, Bool.not_eq_true'] at h
  exact h.1.1.1

theorem quoted?_of_quote (hmark : isQuote mark = true) (h : mark ∉ body) (rest : List Char) :
    quoted? (mark :: body ++ mark :: rest) = some (mark :: body ++ [mark], rest) := by
  have hbody : ∀ c ∈ body, decide (c ≠ mark) = true := fun c hc =>
    decide_eq_true (ne_of_mem_of_not_mem hc h)
  have hhalts : Halts (fun c => decide (c ≠ mark)) (mark :: rest) := by
    rintro c ⟨⟩
    simp
  rw [List.cons_append, quoted?, if_pos (isQuote_iff.mp hmark),
    dropWhile_append_of_halts hbody hhalts, takeWhile_append_of_halts hbody hhalts]

theorem quoted?_cons_of_not_isQuote (h : isQuote c = false) (cs : List Char) :
    quoted? (c :: cs) = none := by
  have hc : ¬ (c = '"' ∨ c = '\'') := fun hc => by simp [isQuote_iff.mpr hc] at h
  rw [quoted?, if_neg hc]

theorem quoted_append (mark : Char) (body cs rest : List Char) :
    mark :: body ++ mark :: cs ++ rest = mark :: body ++ mark :: (cs ++ rest) :=
  List.append_assoc (mark :: body) (mark :: cs) rest

theorem quoted?_cons_of_not_mem (h : c ∉ cs) : quoted? (c :: cs) = none := by
  have hdrop : cs.dropWhile (fun d => decide (d ≠ c)) = [] :=
    List.dropWhile_eq_nil_iff.mpr fun d hd => decide_eq_true (ne_of_mem_of_not_mem hd h)
  rw [quoted?, hdrop]
  split <;> rfl

theorem exists_of_quoted? (h : quoted? cs = some (q, after)) :
    ∃ mark body, isQuote mark = true ∧ mark ∉ body ∧ q = mark :: body ++ [mark] ∧
      cs = mark :: body ++ mark :: after := by
  have hcs := quoted?_append h
  unfold quoted? at h
  split at h
  · cases h
  · next mark more =>
    split at h
    · next hmark =>
      split at h
      · cases h
      · cases h
        refine ⟨mark, _, isQuote_iff.mpr hmark, ?_, rfl, ?_⟩
        · exact fun hmem => by simpa using List.mem_takeWhile_imp hmem
        · rw [← hcs]
          simp
    · cases h

theorem quoted?_cons_eq_none_iff : quoted? (c :: cs) = none ↔ isQuote c = true → c ∉ cs := by
  constructor
  · intro h hc hmem
    obtain ⟨body, rest, rfl, hbody⟩ := List.eq_append_cons_of_mem hmem
    rw [← List.cons_append, quoted?_of_quote hc hbody] at h
    cases h
  · intro h
    by_cases hc : isQuote c = true
    · exact quoted?_cons_of_not_mem (h hc)
    · exact quoted?_cons_of_not_isQuote (by simpa using hc) cs

/-! ## The longest run -/

theorem takeRun_nil (plain : Char → Bool) : takeRun plain [] = ([], []) := by
  rw [takeRun]

theorem takeRun_of_quoted? (h : quoted? cs = some (q, after)) :
    takeRun plain cs = (q ++ (takeRun plain after).1, (takeRun plain after).2) := by
  cases cs with
  | nil => cases h
  | cons c cs =>
    rw [takeRun]
    split
    · next heq =>
      cases h.symm.trans heq
      rfl
    · next heq => cases h.symm.trans heq

theorem takeRun_of_plain (hquoted : quoted? (c :: cs) = none) (hc : plain c = true) :
    takeRun plain (c :: cs) = (c :: (takeRun plain cs).1, (takeRun plain cs).2) := by
  rw [takeRun]
  split
  · next heq => cases hquoted.symm.trans heq
  · rw [if_pos hc]

theorem takeRun_of_not_plain (hquoted : quoted? (c :: cs) = none) (hc : plain c = false) :
    takeRun plain (c :: cs) = ([], c :: cs) := by
  rw [takeRun]
  split
  · next heq => cases hquoted.symm.trans heq
  · rw [if_neg (by simp [hc])]

/-! ## Runs -/

/-- Quoted texts one after the other, and other characters that are no quotes. -/
inductive IsRun (plain : Char → Bool) : List Char → Prop
  | nil : IsRun plain []
  | plain {c : Char} {cs : List Char} : plain c = true → isQuote c = false → IsRun plain cs →
    IsRun plain (c :: cs)
  | quoted {mark : Char} {body cs : List Char} : isQuote mark = true → mark ∉ body →
    IsRun plain cs → IsRun plain (mark :: body ++ mark :: cs)

/-- Each quote outside of quoted texts opens one. -/
def IsBalanced (cs : List Char) : Prop := IsRun (fun _ => true) cs

theorem IsRun.append (hrun : IsRun plain run) (hrest : IsRun plain rest) :
    IsRun plain (run ++ rest) := by
  induction hrun with
  | nil => exact hrest
  | plain hplain hc hcs ih => exact .plain hplain hc ih
  | quoted hmark hbody hcs ih =>
    rw [quoted_append]
    exact .quoted hmark hbody ih

theorem IsRun.tail (hrun : IsRun plain (c :: cs)) (hquoted : quoted? (c :: cs) = none) :
    IsRun plain cs := by
  cases hrun with
  | plain hplain hc hcs => exact hcs
  | quoted hmark hbody hcs =>
    have hnone := quoted?_cons_eq_none_iff.mp hquoted hmark
    exact absurd (by simp) hnone

theorem IsRun.of_forall (h : ∀ c ∈ cs, plain c = true ∧ isQuote c = false) : IsRun plain cs := by
  induction cs with
  | nil => exact .nil
  | cons c cs ih =>
    obtain ⟨hplain, hc⟩ := h c List.mem_cons_self
    exact .plain hplain hc (ih fun d hd => h d (List.mem_cons_of_mem c hd))

theorem IsRun.mono {wide : Char → Bool}
    (h : ∀ c, plain c = true → isQuote c = false → wide c = true) (hrun : IsRun plain run) :
    IsRun wide run := by
  induction hrun with
  | nil => exact .nil
  | plain hplain hc hcs ih => exact .plain (h _ hplain hc) hc ih
  | quoted hmark hbody hcs ih => exact .quoted hmark hbody ih

theorem IsRun.isBalanced (hrun : IsRun plain run) : IsBalanced run := hrun.mono fun _ _ _ => rfl

/-- A run at the start is taken whole, and more of what follows it if that goes on. -/
theorem IsRun.takeRun_append (hrun : IsRun plain run) (rest : List Char) :
    takeRun plain (run ++ rest) = (run ++ (takeRun plain rest).1, (takeRun plain rest).2) := by
  induction hrun with
  | nil => rfl
  | plain hplain hc hcs ih =>
    rw [List.cons_append, takeRun_of_plain (quoted?_cons_of_not_isQuote hc _) hplain, ih]
    rfl
  | @quoted mark body cs hmark hbody hcs ih =>
    rw [quoted_append, takeRun_of_quoted? (quoted?_of_quote hmark hbody _), ih]
    simp

end

end Stencil.Markup
