import Stencil.Proofs.Text.Blank
import Stencil.Token

/-!
# Markers without dashes

A marker with a blank at each end trims nothing around it. Each marker has one of these that says
the same.
-/

namespace Stencil.Token

open Text

/-! ## A blank at each end -/

section

variable {t : Token} {a b c d : Char} {cs : List Char}

theorem markup_of_blanks (hkind : t.kind ≠ .text)
    (hvalue : t.value.toList = a :: b :: ' ' :: (cs ++ [' ', c, d])) : t.markup = trim cs := by
  have hspace : AllBlank [' '] := by
    rintro c (_ | ⟨_, ⟨⟩⟩)
    rfl
  have hparts : t.value.toList = a :: b :: ([' '] ++ (cs ++ [' '])) ++ [c, d] := by simp [hvalue]
  have hinner : (t.value.toList.take (t.value.toList.length - 2)).drop 2 =
      [' '] ++ (cs ++ [' ']) := by
    have htwo : [c, d].length = 2 := rfl
    rw [hparts, List.length_append, htwo, Nat.add_sub_cancel, List.take_left]
    rfl
  have hdashes : dropDashes ([' '] ++ (cs ++ [' '])) = [' '] ++ (cs ++ [' ']) := by
    have hlast : ([' '] ++ (cs ++ [' '])).getLast? = some ' ' := by
      rw [← List.append_assoc, List.getLast?_concat]
    exact if_neg fun hdash => absurd (hlast.symm.trans hdash) (by decide)
  rw [← trim_of_blanks hspace hspace cs, ← hdashes, ← hinner]
  unfold markup
  split
  · contradiction
  · rfl

theorem trimsLeft_of_blank (hvalue : t.value.toList = a :: b :: ' ' :: cs) :
    t.trimsLeft = false := by
  unfold trimsLeft
  rw [hvalue]
  simp

theorem trimsRight_of_blank (hvalue : t.value.toList = cs ++ [' ', c, d]) :
    t.trimsRight = false := by
  unfold trimsRight
  rw [hvalue]
  simp

end

/-! ## Taking the dashes off -/

/-- The same marker with no dashes. -/
def plain (t : Token) : Token :=
  let inner := ' ' :: (t.markup ++ [' '])
  match t.kind with
  | .text => t
  | .output => { t with value := String.ofList ('{' :: '{' :: (inner ++ ['}', '}'])) }
  | .tag => { t with value := String.ofList ('{' :: '%' :: (inner ++ ['%', '}'])) }

@[simp]
theorem plain_kind (t : Token) : t.plain.kind = t.kind := by
  cases t with
  | mk kind value line => cases kind <;> rfl

@[simp]
theorem plain_line (t : Token) : t.plain.line = t.line := by
  cases t with
  | mk kind value line => cases kind <;> rfl

theorem exists_plain_value {t : Token} (h : t.kind ≠ .text) :
    ∃ a b c d, t.plain.value.toList = a :: b :: ' ' :: (t.markup ++ [' ', c, d]) := by
  unfold plain
  cases hkind : t.kind with
  | text => contradiction
  | output => exact ⟨'{', '{', '}', '}', by simp⟩
  | tag => exact ⟨'{', '%', '%', '}', by simp⟩

theorem plain_trimsLeft {t : Token} (h : t.kind ≠ .text) : t.plain.trimsLeft = false := by
  obtain ⟨a, b, c, d, hvalue⟩ := exists_plain_value h
  exact trimsLeft_of_blank hvalue

theorem plain_trimsRight {t : Token} (h : t.kind ≠ .text) : t.plain.trimsRight = false := by
  obtain ⟨a, b, c, d, hvalue⟩ := exists_plain_value h
  have hparts : t.plain.value.toList = a :: b :: ' ' :: t.markup ++ [' ', c, d] := by simp [hvalue]
  exact trimsRight_of_blank hparts

theorem exists_markup_eq_trim {t : Token} (h : t.kind ≠ .text) : ∃ cs, t.markup = trim cs := by
  unfold markup
  split
  · contradiction
  · exact ⟨_, rfl⟩

theorem plain_markup {t : Token} (h : t.kind ≠ .text) : t.plain.markup = t.markup := by
  obtain ⟨a, b, c, d, hvalue⟩ := exists_plain_value h
  obtain ⟨cs, hcs⟩ := exists_markup_eq_trim h
  rw [markup_of_blanks (by rwa [plain_kind]) hvalue, hcs, trim_trim]

end Stencil.Token
