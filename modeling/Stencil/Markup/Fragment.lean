import Stencil.Text.Blank
import Stencil.Text.Word

/-! # Pieces of markup -/

namespace Stencil.Markup

open Text

/-- A text in quotes of one kind, with its quotes, and what follows it. -/
def quoted? : List Char → Option (List Char × List Char)
  | [] => none
  | mark :: rest =>
    if mark = '"' ∨ mark = '\'' then
      match rest.dropWhile (· ≠ mark) with
      | [] => none
      | _ :: after => some (mark :: rest.takeWhile (· ≠ mark) ++ [mark], after)
    else none

theorem quoted?_length {cs q after : List Char} (h : quoted? cs = some (q, after)) :
    after.length < cs.length := by
  unfold quoted? at h
  split at h
  · simp at h
  · next mark rest =>
    have hd := (List.dropWhile_sublist (l := rest) (· ≠ mark)).length_le
    split at h
    · split at h
      · simp at h
      · next heq =>
        rw [heq] at hd
        simp only [Option.some.injEq, Prod.mk.injEq] at h
        simp only [List.length_cons] at hd ⊢
        rw [← h.2]
        omega
    · simp at h

/-- The longest run of quoted texts and `plain` characters at the start, and what follows it. -/
def takeRun (plain : Char → Bool) (cs : List Char) : List Char × List Char :=
  match cs with
  | [] => ([], [])
  | c :: rest =>
    match _h : quoted? (c :: rest) with
    | some (q, after) =>
      let (run, left) := takeRun plain after
      (q ++ run, left)
    | none =>
      if plain c then
        let (run, left) := takeRun plain rest
        (c :: run, left)
      else ([], c :: rest)
  termination_by cs.length
  decreasing_by
    · exact quoted?_length _h
    · exact Nat.lt_succ_self _

theorem quoted?_append {cs q after : List Char} (h : quoted? cs = some (q, after)) :
    q ++ after = cs := by
  unfold quoted? at h
  split at h
  · simp at h
  · next mark rest =>
    split at h
    · split at h
      · simp at h
      · next d more heq =>
        have hd : d = mark := by
          have := List.head?_dropWhile_not (· ≠ mark) rest
          rw [heq] at this
          simpa using this
        simp only [Option.some.injEq, Prod.mk.injEq] at h
        obtain ⟨rfl, rfl⟩ := h
        have := List.takeWhile_append_dropWhile (p := (· ≠ mark)) (l := rest)
        rw [heq, hd] at this
        simpa using this
    · simp at h

theorem takeRun_append (plain : Char → Bool) (cs : List Char) :
    (takeRun plain cs).1 ++ (takeRun plain cs).2 = cs := by
  fun_induction takeRun plain cs with
  | case1 => rfl
  | case2 c rest q after hq run left heq ih =>
    rw [heq] at ih
    simp only [List.append_assoc]
    rw [show run ++ left = after from ih, quoted?_append hq]
  | case3 c rest hq hp run left heq ih =>
    rw [heq] at ih
    simpa using ih
  | case4 => rfl

theorem takeRun_length {plain : Char → Bool} {cs : List Char} (h : (takeRun plain cs).1 ≠ []) :
    (takeRun plain cs).2.length < cs.length := by
  have h1 := congrArg List.length (takeRun_append plain cs)
  have h2 := List.length_pos_iff.2 h
  simp only [List.length_append] at h1
  omega

/-! ## Words and fragments -/

def isQuote (c : Char) : Bool := c == '"' || c == '\''

/-- What a word of a condition is made of, quoted texts aside. -/
def isWordPart (c : Char) : Bool := !isBlank c && !isQuote c

/-- What a fragment of a directive is made of, quoted texts aside. -/
def isFragmentPart (c : Char) : Bool := !isBlank c && !isQuote c && c != ',' && c != '|'

/-- The words of a text. Blanks, and quotes that are never closed, stand between them. -/
def words (cs : List Char) : List (List Char) :=
  match cs with
  | [] => []
  | c :: rest =>
    if _h : (takeRun isWordPart (c :: rest)).1 = [] then words rest
    else (takeRun isWordPart (c :: rest)).1 :: words (takeRun isWordPart (c :: rest)).2
  termination_by cs.length
  decreasing_by
    · exact Nat.lt_succ_self _
    · exact takeRun_length _h

/-- A quoted text, or a run that does not start with one, and what follows it. -/
def fragment? (cs : List Char) : Option (List Char × List Char) :=
  match quoted? cs with
  | some found => some found
  | none =>
    if (takeRun isFragmentPart cs).1 = [] then none else some (takeRun isFragmentPart cs)

theorem fragment?_length {cs fragment left : List Char} (h : fragment? cs = some (fragment, left)) :
    left.length < cs.length := by
  unfold fragment? at h
  split at h
  · next hq => rw [Option.some.injEq] at h; exact quoted?_length (h ▸ hq)
  · split at h
    · simp at h
    · next hne =>
      have := takeRun_length hne
      rw [Option.some.injEq] at h
      rwa [h] at this

/-! ## Attributes -/

/-- A key, a colon or an equal sign, and a fragment, and what follows them. -/
def attribute? (cs : List Char) : Option ((List Char × List Char) × List Char) :=
  match cs with
  | [] => none
  | c :: rest =>
    if isWordChar c then
      match trimStart ((c :: rest).dropWhile isNameChar) with
      | [] => none
      | mark :: after =>
        if mark = ':' ∨ mark = '=' then
          (fragment? (trimStart after)).map fun (value, left) =>
            (((c :: rest).takeWhile isNameChar, value), left)
        else none
    else none

theorem attribute?_length {cs left : List Char} {found : List Char × List Char}
    (h : attribute? cs = some (found, left)) : left.length < cs.length := by
  unfold attribute? at h
  split at h
  · simp at h
  · next c rest =>
    split at h
    · split at h
      · simp at h
      · next mark after heq =>
        split at h
        · rw [Option.map_eq_some_iff] at h
          obtain ⟨⟨value, left'⟩, hf, he⟩ := h
          have h1 := fragment?_length hf
          have h2 := (List.dropWhile_sublist (l := after) isBlank).length_le
          have h3 :=
            (List.dropWhile_sublist (l := (c :: rest).dropWhile isNameChar) isBlank).length_le
          have h4 := (List.dropWhile_sublist (l := c :: rest) isNameChar).length_le
          simp only [trimStart] at heq h1
          rw [heq] at h3
          simp only [Prod.mk.injEq] at he
          simp only [List.length_cons] at h3 h4 ⊢
          rw [← he.2]
          omega
        · simp at h
    · simp at h

/-- Every attribute of a text in order, whatever stands between them. -/
def attributes (cs : List Char) : List (List Char × List Char) :=
  match cs with
  | [] => []
  | c :: rest =>
    match _h : attribute? (c :: rest) with
    | some (found, left) => found :: attributes left
    | none => attributes rest
  termination_by cs.length
  decreasing_by
    · exact attribute?_length _h
    · exact Nat.lt_succ_self _

end Stencil.Markup
