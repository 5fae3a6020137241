import Mathlib.Data.List.TakeWhile
import Stencil.Text.Blank
import Stencil.Text.Word

/-!
# Blanks around a text

Trimming takes the blanks off both ends of a text and nothing else, so a text that was trimmed stays
as it is, also when blanks are put around it and it is trimmed again.
-/

namespace Stencil.Text

/-- What holds of each blank character by its number holds of all. -/
theorem forall_isBlank {p : Char → Bool}
    (h : ∀ n ∈ List.range' 9 5 ++ List.range' 28 5 ++ List.range' 0x2000 11 ++
      [0x85, 0xA0, 0x1680, 0x2028, 0x2029, 0x202F, 0x205F, 0x3000], p (Char.ofNat n) = true)
    {c : Char} (hc : isBlank c = true) : p c = true := by
  rw [← Char.ofNat_toNat c]
  apply h
  simp only [isBlank, Bool.or_eq_true, Bool.and_eq_true, decide_eq_true_eq, beq_iff_eq] at hc
  simp only [List.mem_append, List.mem_range'_1, List.mem_cons, List.not_mem_nil, or_false]
  omega

theorem not_isBlank_of_isNameChar {c : Char} (h : isNameChar c = true) : isBlank c = false := by
  by_contra hblank
  have hother : (!isNameChar c) = true :=
    forall_isBlank (p := fun c => !isNameChar c) (by decide +kernel) (by simpa using hblank)
  simp [h] at hother

def AllBlank (cs : List Char) : Prop := ∀ c ∈ cs, isBlank c = true

theorem trimStart_append {blanks : List Char} (h : AllBlank blanks) (cs : List Char) :
    trimStart (blanks ++ cs) = trimStart cs := List.dropWhile_append_of_pos h

theorem trimStart_cons {c : Char} (h : isBlank c = false) (cs : List Char) :
    trimStart (c :: cs) = c :: cs := List.dropWhile_cons_of_neg (by simp [h])

theorem exists_trimStart (cs : List Char) :
    ∃ blanks, AllBlank blanks ∧ cs = blanks ++ trimStart cs :=
  ⟨cs.takeWhile isBlank, fun _ hc => List.mem_takeWhile_imp hc,
    List.takeWhile_append_dropWhile.symm⟩

theorem trimEnd_of_allBlank {cs : List Char} (h : AllBlank cs) : trimEnd cs = [] := by
  unfold trimEnd
  rw [List.dropWhile_eq_nil_iff.mpr fun c hc => h c (List.mem_reverse.mp hc)]
  rfl

theorem trimEnd_append {c : Char} (h : isBlank c = false) (before cs : List Char) :
    trimEnd (before ++ c :: cs) = before ++ c :: trimEnd cs := by
  have hstop : (c :: before.reverse).dropWhile isBlank = c :: before.reverse :=
    List.dropWhile_cons_of_neg (by simp [h])
  have hreverse : (before ++ c :: cs).reverse = cs.reverse ++ c :: before.reverse := by simp
  unfold trimEnd
  rw [hreverse, List.dropWhile_append, hstop]
  split
  · next hblank =>
    rw [List.isEmpty_iff] at hblank
    simp [hblank]
  · simp

theorem exists_trimEnd (cs : List Char) :
    ∃ blanks, AllBlank blanks ∧ cs = trimEnd cs ++ blanks := by
  obtain ⟨blanks, hblanks, hcs⟩ := exists_trimStart cs.reverse
  refine ⟨blanks.reverse, fun c hc => hblanks c (List.mem_reverse.mp hc), ?_⟩
  rw [← List.reverse_inj, hcs]
  simp [trimEnd, trimStart]

theorem trim_eq_self {cs : List Char} (h : ∀ c ∈ cs, isBlank c = false) : trim cs = cs := by
  have hstart : ∀ ds ⊆ cs, ds.dropWhile isBlank = ds := by
    intro ds hds
    cases ds with
    | nil => rfl
    | cons d ds => exact List.dropWhile_cons_of_neg (by simp [h d (hds List.mem_cons_self)])
  rw [trim, trimStart, hstart cs (List.Subset.refl cs), trimEnd, hstart cs.reverse (by simp),
    List.reverse_reverse]

/-! ## Trimming again -/

theorem trimEnd_append_blanks {blanks : List Char} (h : AllBlank blanks) (cs : List Char) :
    trimEnd (cs ++ blanks) = trimEnd cs := by
  have hreverse : AllBlank blanks.reverse := fun c hc => h c (List.mem_reverse.mp hc)
  have htrim := trimStart_append hreverse cs.reverse
  unfold trimStart at htrim
  unfold trimEnd
  rw [List.reverse_append, htrim]

theorem trim_of_blanks {before after : List Char} (hbefore : AllBlank before)
    (hafter : AllBlank after) (cs : List Char) : trim (before ++ (cs ++ after)) = trim cs := by
  unfold trim
  rw [trimStart_append hbefore]
  unfold trimStart
  rw [List.dropWhile_append]
  split
  · next hempty =>
    rw [List.isEmpty_iff.mp hempty, List.dropWhile_eq_nil_iff.mpr hafter]
  · exact trimEnd_append_blanks hafter _

theorem trim_trim (cs : List Char) : trim (trim cs) = trim cs := by
  obtain ⟨before, hbefore, hstart⟩ := exists_trimStart cs
  obtain ⟨after, hafter, hend⟩ := exists_trimEnd (trimStart cs)
  have hcs : before ++ (trim cs ++ after) = cs := by rw [trim, ← hend, ← hstart]
  have htrim := trim_of_blanks hbefore hafter (trim cs)
  rw [hcs] at htrim
  exact htrim.symm

end Stencil.Text
