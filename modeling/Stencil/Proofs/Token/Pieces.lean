import Stencil.Proofs.Token.Marker

/-!
# Pieces

The pieces of a text put together are the text. How a text is cut after a marker does not depend on
what stands before it.
-/

namespace Stencil.Token

/-! ## Cutting -/

@[simp]
theorem pieces_nil : pieces [] = [] := by rw [pieces]

theorem pieces_of_marker {cs after : List Char} {m : Piece} (h : marker? cs = some (m, after)) :
    pieces cs = m :: pieces after := by
  cases cs with
  | nil => contradiction
  | cons c cs =>
    rw [pieces]
    split
    · next heq =>
      cases h.symm.trans heq
      rfl
    · next heq => cases h.symm.trans heq

theorem pieces_of_none {c : Char} {cs : List Char} (h : marker? (c :: cs) = none) :
    pieces (c :: cs) = consText c (pieces cs) := by
  rw [pieces]
  split
  · next heq => cases h.symm.trans heq
  · rfl

theorem pieces_append_of_marker {cs after : List Char} {m : Piece}
    (h : marker? cs = some (m, after)) (rest : List Char) :
    pieces (cs ++ rest) = m :: pieces (after ++ rest) := pieces_of_marker (marker?_append h rest)

/-- The text of pieces. -/
def flatten (ps : List Piece) : List Char := ps.flatMap (·.2)

theorem flatten_cons (p : Piece) (ps : List Piece) : flatten (p :: ps) = p.2 ++ flatten ps := rfl

theorem flatten_consText (c : Char) (ps : List Piece) :
    flatten (consText c ps) = c :: flatten ps := by
  unfold consText
  split <;> rfl

theorem flatten_pieces (cs : List Char) : flatten (pieces cs) = cs := by
  fun_induction pieces cs with
  | case1 => rfl
  | case2 c rest m after h ih =>
    rw [flatten_cons, ih]
    exact (marker?_eq_append h).symm
  | case3 c rest h ih => rw [flatten_consText, ih]

theorem consText_append (c : Char) (ps : List Piece) {kind : TokenKind} (hkind : kind ≠ .text)
    (cs : List Char) (more : List Piece) :
    consText c (ps ++ (kind, cs) :: more) = consText c ps ++ (kind, cs) :: more := by
  cases ps with
  | nil => cases kind <;> first | rfl | contradiction
  | cons p ps =>
    obtain ⟨kind', cs'⟩ := p
    cases kind' <;> rfl

/-! ## Numbering -/

theorem number_append (line : Nat) (ps qs : List Piece) :
    number line (ps ++ qs) = number line ps ++ number (line + (flatten ps).count '\n') qs := by
  induction ps generalizing line with
  | nil => rfl
  | cons p ps ih =>
    rw [List.cons_append, number, number, ih, flatten_cons, List.count_append, Nat.add_assoc]
    rfl

theorem number_isInfix {line : Nat} {ps : List Piece} {t : Token} (h : t ∈ number line ps) :
    t.value.toList <:+: flatten ps := by
  induction ps generalizing line with
  | nil => contradiction
  | cons p ps ih =>
    rw [flatten_cons]
    cases h with
    | head =>
      rw [String.toList_ofList]
      exact (List.prefix_append p.2 _).isInfix
    | tail _ h => exact (ih h).trans (List.suffix_append p.2 _).isInfix

theorem text_number (line : Nat) (ps : List Piece) :
    ((number line ps).flatMap fun t => t.value.toList) = flatten ps := by
  induction ps generalizing line with
  | nil => rfl
  | cons p ps ih =>
    rw [number, List.flatMap_cons, ih, String.toList_ofList]
    rfl

def shift (lines : Nat) (t : Token) : Token := { t with line := lines + t.line }

theorem number_add (lines line : Nat) (ps : List Piece) :
    number (lines + line) ps = (number line ps).map (shift lines) := by
  induction ps generalizing line with
  | nil => rfl
  | cons p ps ih =>
    rw [number, number, List.map_cons, Nat.add_assoc, ih]
    rfl

end Stencil.Token
