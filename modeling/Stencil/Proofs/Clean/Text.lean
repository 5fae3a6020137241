import Mathlib.Data.List.Basic
import Stencil.Number.Shortest
import Stencil.Text.Blank
import Stencil.Text.Quoted
import Stencil.Text.Similarity
import Stencil.Text.Order

/-!
# Texts without escapes

Every sequence that a terminal obeys starts with the same character. Numbers are written without
it, and text in quotes shows it by its number.
-/

namespace Stencil

namespace Text

def NoEscape (cs : List Char) : Prop := '\x1b' ∉ cs

instance (cs : List Char) : Decidable (NoEscape cs) := inferInstanceAs (Decidable (_ ∉ _))

/-- There is nothing in the text that a terminal obeys. -/
def Clean (s : String) : Prop := NoEscape s.toList

instance (s : String) : Decidable (Clean s) := inferInstanceAs (Decidable (NoEscape _))

/-! ## Lists of characters -/

section

variable {cs ds : List Char} {c : Char}

theorem NoEscape.nil : NoEscape [] := List.not_mem_nil

@[simp]
theorem noEscape_append : NoEscape (cs ++ ds) ↔ NoEscape cs ∧ NoEscape ds := by
  unfold NoEscape
  rw [List.mem_append, not_or]

@[simp]
theorem noEscape_cons : NoEscape (c :: cs) ↔ c ≠ '\x1b' ∧ NoEscape cs := by
  unfold NoEscape
  rw [List.mem_cons, not_or, ne_comm]

theorem NoEscape.of_subset (h : NoEscape ds) (hsub : cs ⊆ ds) : NoEscape cs :=
  fun hmem => h (hsub hmem)

theorem NoEscape.of_isInfix (h : NoEscape ds) (hpart : cs <:+: ds) : NoEscape cs :=
  h.of_subset hpart.subset

theorem NoEscape.ne (h : NoEscape cs) (hc : c ∈ cs) : c ≠ '\x1b' := by
  rintro rfl
  exact h hc

theorem NoEscape.replicate (n : Nat) (hc : c ≠ '\x1b') : NoEscape (List.replicate n c) :=
  fun hmem => hc (List.eq_of_mem_replicate hmem).symm

theorem NoEscape.dropWhile (h : NoEscape cs) (p : Char → Bool) : NoEscape (cs.dropWhile p) :=
  h.of_subset (List.dropWhile_sublist p).subset

theorem NoEscape.trimStart (h : NoEscape cs) : NoEscape (trimStart cs) := h.dropWhile isBlank

theorem NoEscape.trimEnd (h : NoEscape cs) : NoEscape (trimEnd cs) := by
  refine h.of_subset fun c hc => ?_
  have hc := (List.dropWhile_sublist isBlank).subset (List.mem_reverse.mp hc)
  exact List.mem_reverse.mp hc

theorem NoEscape.trim (h : NoEscape cs) : NoEscape (trim cs) := h.trimStart.trimEnd

end

/-! ## Texts -/

section

variable {s t : String} {texts : List String}

@[simp]
theorem clean_append : Clean (s ++ t) ↔ Clean s ∧ Clean t := by
  unfold Clean
  rw [String.toList_append, noEscape_append]

@[simp]
theorem clean_ofList {cs : List Char} : Clean (String.ofList cs) ↔ NoEscape cs := by
  unfold Clean
  rw [String.toList_ofList]

theorem Clean.singleton {c : Char} (h : c ≠ '\x1b') : Clean (String.singleton c) := by
  unfold Clean
  rw [String.toList_singleton, noEscape_cons]
  exact ⟨h, .nil⟩

theorem Clean.intercalate (hs : Clean s) (htexts : ∀ t ∈ texts, Clean t) :
    Clean (s.intercalate texts) := by
  induction texts with
  | nil => exact NoEscape.nil
  | cons t texts ih =>
    have ht : Clean t := htexts t List.mem_cons_self
    have hmore := ih fun u hu => htexts u (List.mem_cons_of_mem _ hu)
    cases texts with
    | nil => rwa [String.intercalate_singleton]
    | cons u texts =>
      rw [String.intercalate_cons_cons]
      simp [hs, ht, hmore]

theorem forall_clean_pair : (∀ text ∈ [s, t], Clean text) ↔ Clean s ∧ Clean t := by
  rw [List.forall_mem_cons, List.forall_mem_singleton]

theorem clean_none : ∀ s ∈ (none : Option String), Clean s := nofun

theorem clean_some (h : Clean t) : ∀ s ∈ some t, Clean s := by
  rintro _ ⟨⟩
  exact h

theorem mem_of_foldl_choice {α : Type} {choose : Option α → α → Option α}
    (h : ∀ best next, choose best next = some next ∨ choose best next = best) {as : List α}
    {best : Option α} {a : α} (hfold : as.foldl choose best = some a) : a ∈ as ∨ best = some a := by
  induction as generalizing best with
  | nil => exact .inr hfold
  | cons next as ih =>
    rcases ih hfold with hmem | hchoice
    · exact .inl (List.mem_cons_of_mem _ hmem)
    · rcases h best next with hnext | hbest
      · cases hnext.symm.trans hchoice
        exact .inl List.mem_cons_self
      · exact .inr (hbest.symm.trans hchoice)

theorem mem_of_closest? {word found : String} (h : closest? word texts = some found) :
    found ∈ texts := by
  unfold closest? at h
  obtain ⟨⟨likeness, _⟩, hbest, rfl⟩ := Option.map_eq_some_iff.mp h
  refine (mem_of_foldl_choice ?_ hbest).elim (fun hmem => ?_) nofun
  · intro best next
    cases best with
    | none => exact .inl rfl
    | some b =>
      dsimp only
      split
      · exact .inl rfl
      · exact .inr rfl
  · obtain ⟨candidate, hcandidate, heq⟩ := List.mem_map.mp (List.mem_of_mem_filter hmem)
    cases heq
    exact hcandidate

theorem mem_of_mem_sorted (h : s ∈ sorted texts) : s ∈ texts := List.mem_mergeSort.mp h

end

/-! ## Quotes -/

theorem digitChar_ne_escape : ∀ n < 16, Nat.digitChar n ≠ '\x1b' := by decide

theorem noEscape_hexDigits (width n : Nat) : NoEscape (hexDigits width n) := by
  intro hmem
  obtain ⟨place, -, h⟩ := List.mem_map.mp hmem
  exact digitChar_ne_escape _ (Nat.mod_lt _ (by decide)) h

theorem noEscape_escapeChar {plain : Char → Bool} (hplain : plain '\x1b' = false) {mark : Char}
    (hmark : mark ≠ '\x1b') (c : Char) : NoEscape (escapeChar plain mark c) := by
  have hnumber : ∀ (k : Char) width, k ≠ '\x1b' →
      NoEscape ('\\' :: k :: hexDigits width c.toNat) := by
    intro k width hk
    simp [hk, noEscape_hexDigits]
  unfold escapeChar
  split_ifs with hmarked hfeed hreturn htab hshown
  · have hc : c ≠ '\x1b' := by
      rintro rfl
      rcases hmarked with rfl | h
      · exact hmark rfl
      · exact absurd h (by decide)
    simp [hc, NoEscape.nil]
  · decide
  · decide
  · decide
  · have hc : c ≠ '\x1b' := by
      rintro rfl
      cases hplain.symm.trans hshown
    simp [hc, NoEscape.nil]
  · exact hnumber 'x' 2 (by decide)
  · exact hnumber 'u' 4 (by decide)
  · exact hnumber 'U' 8 (by decide)

theorem clean_quoted (s : String) : Clean (quoted s) := by
  have hmark : quoteMark s ≠ '\x1b' := by
    unfold quoteMark
    split <;> decide
  have hbody : NoEscape (s.toList.flatMap (escapeChar isPrintable (quoteMark s))) := by
    intro hmem
    obtain ⟨c, -, hc⟩ := List.mem_flatMap.mp hmem
    exact noEscape_escapeChar (by decide +kernel) hmark c hc
  unfold quoted quotedWith
  rw [clean_ofList]
  simp [hmark, hbody, NoEscape.nil]

/-! ## Numbers -/

theorem noEscape_toDigits (n : Nat) : NoEscape (Nat.toDigits 10 n) := by
  intro hmem
  exact absurd (Nat.isDigit_of_mem_toDigits (by decide) (by decide) hmem) (by decide)

@[simp]
theorem clean_natRepr (n : Nat) : Clean n.repr := by
  unfold Clean
  rw [Nat.toList_repr]
  exact noEscape_toDigits n

@[simp]
theorem clean_intRepr (n : Int) : Clean n.repr := by
  cases n with
  | ofNat n => exact clean_natRepr n
  | negSucc n => exact clean_append.mpr ⟨by decide, clean_natRepr (n + 1)⟩

end Text

namespace Binary64

open Text

theorem noEscape_exponentDigits (n : Nat) : NoEscape (exponentDigits n) := by
  unfold exponentDigits
  dsimp only
  split
  · simp [noEscape_toDigits]
  · exact noEscape_toDigits n

theorem noEscape_layoutText {digits : List Char} (h : NoEscape digits) (point : Int) :
    NoEscape (layoutText digits point) := by
  have hzeros : ∀ n, NoEscape (List.replicate n '0') := fun n => .replicate n (by decide)
  unfold layoutText
  split_ifs with hplain hsmall
  · simp [h, hzeros]
  · have htake : NoEscape (digits.take point.toNat) := h.of_subset (List.take_subset _ _)
    have hdrop : NoEscape (digits.drop point.toNat) := h.of_subset (List.drop_subset _ _)
    dsimp only
    rw [noEscape_append, noEscape_append, noEscape_cons]
    refine ⟨⟨htake, hzeros _⟩, by decide, ?_⟩
    split
    · decide
    · exact hdrop
  · rw [noEscape_append, noEscape_cons, noEscape_cons]
    refine ⟨?_, by decide, ?_, noEscape_exponentDigits _⟩
    · split
      · simpa using h
      · exact h
    · split <;> decide

theorem clean_text (x : Binary64) : Clean x.text := by
  cases x with
  | nan p => exact (by decide : Clean "nan")
  | infinite negative => cases negative <;> decide
  | finite negative m e =>
    have hdigits : NoEscape (stripZeros (Nat.toDigits 10 (shortest m e).digits)) := by
      refine (noEscape_toDigits (shortest m e).digits).of_subset fun c hc => ?_
      have hc := (List.dropWhile_sublist _).subset (List.mem_reverse.mp hc)
      exact List.mem_reverse.mp hc
    have hbody : NoEscape (if m = 0 then "0.0".toList else
        layoutText (shortest m e).layout.1 (shortest m e).layout.2) := by
      split
      · decide
      · exact noEscape_layoutText hdigits _
    unfold text
    rw [clean_ofList]
    split
    · exact noEscape_cons.mpr ⟨by decide, hbody⟩
    · exact hbody

end Binary64

end Stencil
