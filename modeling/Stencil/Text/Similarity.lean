/-! # The closest word -/

namespace Stencil.Text

/-- Two equal pieces of two texts: where they start and how long they are. -/
structure Match where
  left : Nat
  right : Nat
  size : Nat

/-! ## The longest match -/

/--
For each place of `word`, the length of the longest match that ends there and with `c`, given the
lengths `above` for the character before `c`.
-/
def matchRow (skip : Char → Bool) (word : List Char) (above : List Nat) (c : Char) : List Nat :=
  List.zipWith (fun d n => if d = c && !skip d then n + 1 else 0) word (0 :: above)

/-- The better of a match and the matches of one row; the earlier wins at equal length. -/
def bestOfRow (best : Match) (i : Nat) (row : List Nat) : Match :=
  row.zipIdx.foldl
    (fun b (n, j) => if n > b.size then ⟨i + 1 - n, j + 1 - n, n⟩ else b) best

def longestFrom (skip : Char → Bool) (word : List Char) : List Char → Nat → List Nat → Match → Match
  | [], _, _, best => best
  | c :: rest, i, above, best =>
    let row := matchRow skip word above c
    longestFrom skip word rest (i + 1) row (bestOfRow best i row)

/-- How far two texts agree from their starts. -/
def commonPrefix : List Char → List Char → Nat
  | c :: cs, d :: ds => if c = d then commonPrefix cs ds + 1 else 0
  | _, _ => 0

/-- The longest match, stretched over the characters that `skip` keeps out of the search. -/
def longestMatch (skip : Char → Bool) (text word : List Char) : Match :=
  let m := longestFrom skip word text 0 (word.map fun _ => 0) ⟨0, 0, 0⟩
  let before := commonPrefix (text.take m.left).reverse (word.take m.right).reverse
  let after := commonPrefix (text.drop (m.left + m.size)) (word.drop (m.right + m.size))
  ⟨m.left - before, m.right - before, before + m.size + after⟩

/-! ## Likeness -/

/-- How many characters match: in the longest match, and then on either side of it. -/
def matchedChars (skip : Char → Bool) (text word : List Char) : Nat :=
  match longestMatch skip text word with
  | ⟨left, right, size⟩ =>
    if _h : 0 < size ∧ left + size ≤ text.length then
      matchedChars skip (text.take left) (word.take right) + size +
        matchedChars skip (text.drop (left + size)) (word.drop (right + size))
    else 0
  termination_by text.length
  decreasing_by all_goals simp only [List.length_take, List.length_drop]; omega

/-- In a word of 200 characters or more, those that make up over a hundredth of it. -/
def tooFrequent (word : List Char) (c : Char) : Bool :=
  200 ≤ word.length && word.count c > word.length / 100 + 1

/-- A likeness is `matched / total`, with `matched` counted on both sides. -/
structure Likeness where
  matched : Nat
  total : Nat

def likeness (text word : List Char) : Likeness :=
  ⟨2 * matchedChars (tooFrequent word) text word, text.length + word.length⟩

/-- Two texts are close when at least three fifths of their characters match. -/
def Likeness.isClose (x : Likeness) : Bool := 3 * x.total ≤ 5 * x.matched

/-- `x` is less than `y`; two empty texts are alike in full. -/
def Likeness.isLess (x y : Likeness) : Bool :=
  x.matched * y.total < y.matched * x.total

/-- The candidate most like `word`, if one is close. At equal likeness the later in order wins. -/
def closest? (word : String) (candidates : List String) : Option String :=
  let scored := candidates.map fun s => (likeness s.toList word.toList, s)
  let best := (scored.filter (·.1.isClose)).foldl
    (fun best next => match best with
      | none => some next
      | some b =>
        if b.1.isLess next.1 || (!next.1.isLess b.1 && b.2 < next.2) then some next else some b)
    none
  best.map (·.2)

end Stencil.Text
