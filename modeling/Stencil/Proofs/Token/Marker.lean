import Stencil.Token

/-!
# Markers in a longer text

A marker that ends stays the marker that it is, whatever text follows. A tag that does not end yet
ends in the text that follows, an output marker that does not end yet stops at the next tag.
-/

namespace Stencil.Token

variable {c : Char} {cs inner after : List Char}

theorem cons_append_ne {a b d : Char} (h : ∀ rest, c = a → cs = b :: rest → False) (hd : d ≠ b)
    (rest more : List Char) : c :: (cs ++ d :: rest) ≠ a :: b :: more := by
  rintro heq
  cases cs with
  | nil =>
    cases heq
    exact hd rfl
  | cons e cs =>
    cases heq
    exact h cs rfl rfl

/-! ## Ends of tags -/

theorem tagEnd?_cons (h : ∀ rest, c :: cs ≠ '%' :: '}' :: rest) :
    tagEnd? (c :: cs) = (tagEnd? cs).map fun (inner, after) => (c :: inner, after) := by
  rw [tagEnd?.eq_def]
  split
  · contradiction
  · next heq => exact absurd heq (h _)
  · next heq =>
    cases heq
    rfl

theorem tagEnd?_eq_append (h : tagEnd? cs = some (inner, after)) :
    cs = inner ++ '%' :: '}' :: after := by
  fun_induction tagEnd? cs generalizing inner with
  | case1 => contradiction
  | case2 after' =>
    cases h
    rfl
  | case3 c cs hne ih =>
    obtain ⟨⟨inner', after'⟩, hend, hpair⟩ := Option.map_eq_some_iff.mp h
    cases hpair
    exact congrArg (c :: ·) (ih hend)

theorem tagEnd?_append (h : tagEnd? cs = some (inner, after)) (rest : List Char) :
    tagEnd? (cs ++ rest) = some (inner, after ++ rest) := by
  fun_induction tagEnd? cs generalizing inner with
  | case1 => contradiction
  | case2 after' =>
    cases h
    rfl
  | case3 c cs hne ih =>
    obtain ⟨⟨inner', after'⟩, hend, hpair⟩ := Option.map_eq_some_iff.mp h
    cases hpair
    have hhead : ∀ more, c :: (cs ++ rest) ≠ '%' :: '}' :: more := by
      rintro more heq
      cases cs with
      | nil => simp [tagEnd?] at hend
      | cons d cs =>
        cases heq
        exact hne cs rfl rfl
    rw [List.cons_append, tagEnd?_cons hhead, ih hend]
    rfl

theorem tagEnd?_append_of_none (h : tagEnd? cs = none) (rest : List Char) :
    tagEnd? (cs ++ '{' :: rest) =
      (tagEnd? ('{' :: rest)).map fun (inner, after) => (cs ++ inner, after) := by
  fun_induction tagEnd? cs with
  | case1 => exact Option.map_id'.symm
  | case2 after' => contradiction
  | case3 c cs hne ih =>
    have hhead := cons_append_ne hne (show '{' ≠ '}' by decide) rest
    rw [List.cons_append, tagEnd?_cons hhead, ih (Option.map_eq_none_iff.mp h), Option.map_map]
    rfl

/-! ## Ends of output markers -/

theorem outputEnd?_cons (hend : ∀ rest, c :: cs ≠ '}' :: '}' :: rest)
    (hopen : ∀ rest, c :: cs ≠ '{' :: '%' :: rest) :
    outputEnd? (c :: cs) = (outputEnd? cs).map fun (inner, after) => (c :: inner, after) := by
  rw [outputEnd?.eq_def]
  split
  · contradiction
  · next heq => exact absurd heq (hend _)
  · next heq => exact absurd heq (hopen _)
  · next heq =>
    cases heq
    rfl

theorem outputEnd?_eq_append (h : outputEnd? cs = some (inner, after)) :
    cs = inner ++ '}' :: '}' :: after := by
  fun_induction outputEnd? cs generalizing inner with
  | case1 => contradiction
  | case2 after' =>
    cases h
    rfl
  | case3 => contradiction
  | case4 c cs hne hno ih =>
    obtain ⟨⟨inner', after'⟩, hend, hpair⟩ := Option.map_eq_some_iff.mp h
    cases hpair
    exact congrArg (c :: ·) (ih hend)

theorem outputEnd?_append (h : outputEnd? cs = some (inner, after)) (rest : List Char) :
    outputEnd? (cs ++ rest) = some (inner, after ++ rest) := by
  fun_induction outputEnd? cs generalizing inner with
  | case1 => contradiction
  | case2 after' =>
    cases h
    rfl
  | case3 => contradiction
  | case4 c cs hne hno ih =>
    obtain ⟨⟨inner', after'⟩, hend, hpair⟩ := Option.map_eq_some_iff.mp h
    cases hpair
    cases cs with
    | nil => simp [outputEnd?] at hend
    | cons d cs =>
      have hstop : ∀ more, c :: d :: (cs ++ rest) ≠ '}' :: '}' :: more := by
        rintro more heq
        cases heq
        exact hne cs rfl rfl
      have hopen : ∀ more, c :: d :: (cs ++ rest) ≠ '{' :: '%' :: more := by
        rintro more heq
        cases heq
        exact hno cs rfl rfl
      rw [List.cons_append, List.cons_append, outputEnd?_cons hstop hopen, ← List.cons_append,
        ih hend]
      rfl

theorem outputEnd?_append_plain (h : ∀ c ∈ cs, c ≠ '}' ∧ c ≠ '{') (rest : List Char) :
    outputEnd? (cs ++ rest) =
      (outputEnd? rest).map fun (inner, after) => (cs ++ inner, after) := by
  induction cs with
  | nil => exact Option.map_id'.symm
  | cons c cs ih =>
    obtain ⟨hend, hopen⟩ := h c List.mem_cons_self
    have hstop : ∀ more, c :: (cs ++ rest) ≠ '}' :: '}' :: more := by
      intro more heq
      exact hend (List.cons.inj heq).1
    have htag : ∀ more, c :: (cs ++ rest) ≠ '{' :: '%' :: more := by
      intro more heq
      exact hopen (List.cons.inj heq).1
    have hcs := ih fun d hd => h d (List.mem_cons_of_mem c hd)
    rw [List.cons_append, outputEnd?_cons hstop htag, hcs, Option.map_map]
    rfl

/-- An output marker does not reach past the next tag. -/
theorem outputEnd?_append_of_none (h : outputEnd? cs = none) (rest : List Char) :
    outputEnd? (cs ++ '{' :: '%' :: rest) = none := by
  fun_induction outputEnd? cs with
  | case1 => rfl
  | case2 after' => contradiction
  | case3 => rfl
  | case4 c cs hne hno ih =>
    have hstop := cons_append_ne hne (show '{' ≠ '}' by decide) ('%' :: rest)
    have hopen := cons_append_ne hno (show '{' ≠ '%' by decide) ('%' :: rest)
    rw [List.cons_append, outputEnd?_cons hstop hopen, ih (Option.map_eq_none_iff.mp h)]
    rfl

/-! ## Markers -/

theorem marker?_tag : marker? ('{' :: '%' :: cs) =
    (tagEnd? cs).map fun (inner, after) => ((.tag, '{' :: '%' :: inner ++ ['%', '}']), after) := rfl

theorem marker?_output : marker? ('{' :: '{' :: cs) =
    (outputEnd? cs).map fun (inner, after) =>
      ((.output, '{' :: '{' :: inner ++ ['}', '}']), after) := rfl

theorem marker?_eq_append {m : Piece} (h : marker? cs = some (m, after)) : cs = m.2 ++ after := by
  unfold marker? at h
  split at h
  · obtain ⟨⟨inner, after'⟩, hend, hpair⟩ := Option.map_eq_some_iff.mp h
    cases hpair
    simp [tagEnd?_eq_append hend]
  · obtain ⟨⟨inner, after'⟩, hend, hpair⟩ := Option.map_eq_some_iff.mp h
    cases hpair
    simp [outputEnd?_eq_append hend]
  · contradiction

theorem marker?_kind {m : Piece} (h : marker? cs = some (m, after)) : m.1 ≠ .text := by
  unfold marker? at h
  split at h
  · obtain ⟨_, _, hpair⟩ := Option.map_eq_some_iff.mp h
    cases hpair
    nofun
  · obtain ⟨_, _, hpair⟩ := Option.map_eq_some_iff.mp h
    cases hpair
    nofun
  · contradiction

theorem marker?_concat {m : Piece} (h : marker? cs = some (m, after)) :
    ∃ text, m.2 = text ++ ['}'] := by
  unfold marker? at h
  split at h
  · obtain ⟨⟨inner, after'⟩, _, hpair⟩ := Option.map_eq_some_iff.mp h
    cases hpair
    exact ⟨'{' :: '%' :: inner ++ ['%'], by simp⟩
  · obtain ⟨⟨inner, after'⟩, _, hpair⟩ := Option.map_eq_some_iff.mp h
    cases hpair
    exact ⟨'{' :: '{' :: inner ++ ['}'], by simp⟩
  · contradiction

theorem marker?_append {m : Piece} (h : marker? cs = some (m, after)) (rest : List Char) :
    marker? (cs ++ rest) = some (m, after ++ rest) := by
  unfold marker? at h
  split at h
  · obtain ⟨⟨inner, after'⟩, hend, hpair⟩ := Option.map_eq_some_iff.mp h
    cases hpair
    simp [marker?, tagEnd?_append hend]
  · obtain ⟨⟨inner, after'⟩, hend, hpair⟩ := Option.map_eq_some_iff.mp h
    cases hpair
    simp [marker?, outputEnd?_append hend]
  · contradiction

theorem marker?_append_of_open_tag (h : marker? ('{' :: '%' :: cs) = none) (rest : List Char) :
    marker? ('{' :: '%' :: cs ++ '{' :: rest) =
      (tagEnd? ('{' :: rest)).map fun (inner, after) =>
        ((.tag, '{' :: '%' :: cs ++ inner ++ ['%', '}']), after) := by
  have hopen : tagEnd? cs = none := Option.map_eq_none_iff.mp h
  rw [List.cons_append, List.cons_append, marker?_tag, tagEnd?_append_of_none hopen, Option.map_map]
  rfl

/--
Before a tag, what starts no marker starts none: a brace at the very end is what may join up with
the tag.
-/
theorem marker?_append_of_none (h : marker? (c :: cs) = none)
    (htag : ∀ more, c :: cs ≠ '{' :: '%' :: more) (hbrace : c :: cs ≠ ['{'])
    (rest : List Char) :
    marker? (c :: cs ++ '{' :: '%' :: rest) = none := by
  by_cases hc : c = '{'
  · subst hc
    cases cs with
    | nil => exact absurd rfl hbrace
    | cons d cs =>
      by_cases hd : d = '{'
      · subst hd
        have hopen : outputEnd? cs = none := Option.map_eq_none_iff.mp h
        rw [List.cons_append, List.cons_append, marker?_output, outputEnd?_append_of_none hopen]
        rfl
      · have hpercent : d ≠ '%' := by
          rintro rfl
          exact htag cs rfl
        simp [marker?, hd, hpercent]
  · simp [marker?, hc]

end Stencil.Token
