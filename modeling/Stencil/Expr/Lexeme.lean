import Stencil.Error.Overflow
import Stencil.Error.Syntax
import Stencil.Number.Reading
import Stencil.Text.Word
import Stencil.Value.Basic

/-! # The words of expressions -/

namespace Stencil

open Text

inductive Lexeme
  | quoted (mark : Char) (body : List Char)
  | number (negative : Bool) (whole : List Char) (fraction : Option (List Char))
  | name (chars : List Char)
  | dots
  | dot
  | openBracket
  | closeBracket
  | openParen
  | closeParen
deriving DecidableEq, Repr

namespace Lexeme

def chars : Lexeme → List Char
  | .quoted mark body => mark :: body ++ [mark]
  | .number negative whole fraction =>
    (if negative then ['-'] else []) ++ whole ++
      match fraction with
      | some digits => '.' :: digits
      | none => []
  | .name chars => chars
  | .dots => ['.', '.']
  | .dot => ['.']
  | .openBracket => ['[']
  | .closeBracket => [']']
  | .openParen => ['(']
  | .closeParen => [')']

def text (l : Lexeme) : String := String.ofList l.chars

/-- The value of digits, with a point or without. -/
def numberValue (negative : Bool) (whole : List Char) :
    Option (List Char) → Except Overflow Value
  | some fraction => .ok (.float (floatOfDigits negative whole fraction))
  | none => match natOfDigits? whole with
    | some n => .ok (.int (if negative then -n else n))
    | none => .error (.unreadable whole.length)

/-! ## Reading -/

/-- Names start with an ASCII letter or an underscore. -/
def isNameStart (c : Char) : Bool := isAsciiLetter c || c == '_'

/-- The text up to the closing mark. -/
def readQuoted? (mark : Char) (cs : List Char) : Option (Lexeme × List Char) :=
  match cs.dropWhile (· ≠ mark) with
  | [] => none
  | _ :: rest => some (.quoted mark (cs.takeWhile (· ≠ mark)), rest)

/-- A point belongs to a number only if a digit follows. -/
def readNumber (negative : Bool) (cs : List Char) : Lexeme × List Char :=
  let whole := cs.takeWhile isDigit
  match cs.dropWhile isDigit with
  | '.' :: d :: rest =>
    if isDigit d then
      (.number negative whole (some (d :: rest.takeWhile isDigit)), rest.dropWhile isDigit)
    else (.number negative whole none, '.' :: d :: rest)
  | rest => (.number negative whole none, rest)

/-- A name may end in a question mark. -/
def readName (cs : List Char) : Lexeme × List Char :=
  let stem := cs.takeWhile isNameChar
  match cs.dropWhile isNameChar with
  | '?' :: rest => (.name (stem ++ ['?']), rest)
  | rest => (.name stem, rest)

def read? : List Char → Option (Lexeme × List Char)
  | [] => none
  | '"' :: rest => readQuoted? '"' rest
  | '\'' :: rest => readQuoted? '\'' rest
  | '.' :: '.' :: rest => some (.dots, rest)
  | '.' :: rest => some (.dot, rest)
  | '[' :: rest => some (.openBracket, rest)
  | ']' :: rest => some (.closeBracket, rest)
  | '(' :: rest => some (.openParen, rest)
  | ')' :: rest => some (.closeParen, rest)
  | '-' :: c :: rest => if isDigit c then some (readNumber true (c :: rest)) else none
  | c :: rest =>
    if isDigit c then some (readNumber false (c :: rest))
    else if isNameStart c then some (readName (c :: rest))
    else none

/-! ## Every lexeme is at least one character long -/

theorem length_dropWhile_le {α : Type} (p : α → Bool) (cs : List α) :
    (cs.dropWhile p).length ≤ cs.length :=
  (List.dropWhile_sublist p).length_le

theorem readQuoted?_length {mark : Char} {cs : List Char} {l : Lexeme} {rest : List Char}
    (h : readQuoted? mark cs = some (l, rest)) : rest.length < cs.length := by
  have := length_dropWhile_le (· ≠ mark) cs
  unfold readQuoted? at h
  split at h
  · simp at h
  · next heq =>
    simp only [Option.some.injEq, Prod.mk.injEq] at h
    rw [heq] at this
    simp only [List.length_cons] at this
    rw [← h.2]
    omega

theorem length_dropWhile_cons_lt {α : Type} {p : α → Bool} {c : α} (cs : List α) (h : p c = true) :
    ((c :: cs).dropWhile p).length < (c :: cs).length := by
  have := length_dropWhile_le p cs
  simp only [List.dropWhile_cons, h, if_true, List.length_cons]
  omega

theorem readNumber_length (negative : Bool) {c : Char} (cs : List Char) (h : isDigit c = true) :
    (readNumber negative (c :: cs)).2.length < (c :: cs).length := by
  have hd := length_dropWhile_cons_lt cs h
  unfold readNumber
  split
  · next d rest heq =>
    have := length_dropWhile_le isDigit rest
    rw [heq] at hd
    simp only [List.length_cons] at hd ⊢
    split <;> simp only [List.length_cons] <;> omega
  · exact hd

theorem readName_length {c : Char} (cs : List Char) (h : isNameChar c = true) :
    (readName (c :: cs)).2.length < (c :: cs).length := by
  have hd := length_dropWhile_cons_lt cs h
  unfold readName
  split
  · next rest heq =>
    rw [heq] at hd
    simp only [List.length_cons] at hd ⊢
    omega
  · exact hd

theorem toNat_lt_of_isAsciiLetter {c : Char} (h : isAsciiLetter c = true) : c.toNat < 128 := by
  simp only [isAsciiLetter, Bool.or_eq_true, Bool.and_eq_true, decide_eq_true_eq] at h
  omega

theorem isNameChar_of_isNameStart {c : Char} (h : isNameStart c = true) : isNameChar c = true := by
  simp only [isNameStart, Bool.or_eq_true] at h
  rcases h with h | h
  · simp [isNameChar, isWordChar, isAlphanumeric, toNat_lt_of_isAsciiLetter h, h]
  · simp [isNameChar, isWordChar, h]

theorem read?_length {cs : List Char} {l : Lexeme} {rest : List Char}
    (h : read? cs = some (l, rest)) : rest.length < cs.length := by
  unfold read? at h
  split at h
  case h_1 => simp at h
  case h_2 => exact Nat.lt_succ_of_lt (readQuoted?_length h)
  case h_3 => exact Nat.lt_succ_of_lt (readQuoted?_length h)
  case h_10 c rest' =>
    split at h
    · next hd =>
      have := readNumber_length true rest' hd
      simp only [Option.some.injEq] at h
      rw [h] at this
      exact Nat.lt_succ_of_lt this
    · simp at h
  case h_11 c rest' _ _ _ _ _ _ _ _ _ =>
    split at h
    · next hd =>
      have := readNumber_length false rest' hd
      simp only [Option.some.injEq] at h
      rwa [h] at this
    · split at h
      · next hn =>
        have := readName_length rest' (isNameChar_of_isNameStart hn)
        simp only [Option.some.injEq] at h
        rwa [h] at this
      · simp at h
  all_goals
    simp only [Option.some.injEq, Prod.mk.injEq] at h
    obtain ⟨_, rfl⟩ := h
    simp only [List.length_cons]
    omega

/-! ## All lexemes -/

/-- The lexemes of a text, with blanks between them or not. -/
def all (cs : List Char) : Except ExprFault (List Lexeme) :=
  match _hcs : trimStart cs with
  | [] => .ok []
  | c :: more =>
    match _hread : read? (c :: more) with
    | none => .error (.unexpectedChar c)
    | some (l, rest) => do
      let ls ← all rest
      return l :: ls
  termination_by cs.length
  decreasing_by
    have h1 := read?_length _hread
    have h2 := length_dropWhile_le isBlank cs
    simp only [trimStart] at _hcs
    rw [_hcs] at h2
    omega

end Lexeme

end Stencil
