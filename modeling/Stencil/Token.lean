import Stencil.Text.Blank
import Stencil.Text.Lines

/-! # Tokens -/

namespace Stencil

inductive TokenKind
  | text
  | output
  | tag
deriving DecidableEq, Repr

/-- A piece of a template, with its delimiters, and the line on which it starts. -/
structure Token where
  kind : TokenKind
  value : String
  line : Nat
deriving DecidableEq, Repr

namespace Token

/-- A text without the dash that it starts with, and without the dash that it ends with then. -/
def dropDashes (cs : List Char) : List Char :=
  let cs := match cs with
    | '-' :: rest => rest
    | cs => cs
  if cs.getLast? = some '-' then cs.dropLast else cs

/-- What stands between the delimiters of a marker, without its trim dashes and outer blanks. -/
def markup (t : Token) : List Char :=
  let cs := t.value.toList
  match t.kind with
  | .text => cs
  | _ => Text.trim (dropDashes ((cs.take (cs.length - 2)).drop 2))

def trimsLeft (t : Token) : Bool := t.kind ≠ .text && t.value.toList[2]? = some '-'

def trimsRight (t : Token) : Bool :=
  let cs := t.value.toList
  t.kind ≠ .text && 5 ≤ cs.length && cs[cs.length - 3]? = some '-'

/-! ## Markers -/

/-- What stands before the first end of a tag, and what stands after it. -/
def tagEnd? : List Char → Option (List Char × List Char)
  | [] => none
  | '%' :: '}' :: after => some ([], after)
  | c :: rest => (tagEnd? rest).map fun (inner, after) => (c :: inner, after)

/-- The same for an output marker, in which no tag may start. -/
def outputEnd? : List Char → Option (List Char × List Char)
  | [] => none
  | '}' :: '}' :: after => some ([], after)
  | '{' :: '%' :: _ => none
  | c :: rest => (outputEnd? rest).map fun (inner, after) => (c :: inner, after)

/-- The marker at the start of a text, and what stands after it. -/
def marker? : List Char → Option ((TokenKind × List Char) × List Char)
  | '{' :: '%' :: rest =>
    (tagEnd? rest).map fun (inner, after) => ((.tag, '{' :: '%' :: inner ++ ['%', '}']), after)
  | '{' :: '{' :: rest =>
    (outputEnd? rest).map fun (inner, after) =>
      ((.output, '{' :: '{' :: inner ++ ['}', '}']), after)
  | _ => none

theorem tagEnd?_length {cs inner after : List Char} (h : tagEnd? cs = some (inner, after)) :
    after.length < cs.length := by
  fun_induction tagEnd? cs generalizing inner with
  | case1 => simp at h
  | case2 after' =>
    simp only [Option.some.injEq, Prod.mk.injEq] at h
    simp only [List.length_cons, h.2]
    omega
  | case3 c rest _ ih =>
    rw [Option.map_eq_some_iff] at h
    obtain ⟨⟨inner', after'⟩, h1, h2⟩ := h
    simp only [Prod.mk.injEq] at h2
    rw [h2.2] at h1
    exact Nat.lt_succ_of_lt (ih h1)

theorem outputEnd?_length {cs inner after : List Char} (h : outputEnd? cs = some (inner, after)) :
    after.length < cs.length := by
  fun_induction outputEnd? cs generalizing inner with
  | case1 => simp at h
  | case2 after' =>
    simp only [Option.some.injEq, Prod.mk.injEq] at h
    simp only [List.length_cons, h.2]
    omega
  | case3 => simp at h
  | case4 c rest _ _ ih =>
    rw [Option.map_eq_some_iff] at h
    obtain ⟨⟨inner', after'⟩, h1, h2⟩ := h
    simp only [Prod.mk.injEq] at h2
    rw [h2.2] at h1
    exact Nat.lt_succ_of_lt (ih h1)

theorem marker?_length {cs after : List Char} {m : TokenKind × List Char}
    (h : marker? cs = some (m, after)) : after.length < cs.length := by
  unfold marker? at h
  split at h
  · rw [Option.map_eq_some_iff] at h
    obtain ⟨⟨inner, after'⟩, h1, h2⟩ := h
    have := tagEnd?_length h1
    simp only [Prod.mk.injEq] at h2
    simp only [List.length_cons, ← h2.2]
    omega
  · rw [Option.map_eq_some_iff] at h
    obtain ⟨⟨inner, after'⟩, h1, h2⟩ := h
    have := outputEnd?_length h1
    simp only [Prod.mk.injEq] at h2
    simp only [List.length_cons, ← h2.2]
    omega
  · simp at h

/-! ## Pieces -/

/-- A token that does not know its line. -/
abbrev Piece := TokenKind × List Char

/-- Puts a character of text in front. -/
def consText (c : Char) : List Piece → List Piece
  | (.text, cs) :: more => (.text, c :: cs) :: more
  | more => (.text, [c]) :: more

/-- The markers of a template and the text around them. A marker that never ends is text. -/
def pieces (cs : List Char) : List Piece :=
  match cs with
  | [] => []
  | c :: rest =>
    match _h : marker? (c :: rest) with
    | some (m, after) => m :: pieces after
    | none => consText c (pieces rest)
  termination_by cs.length
  decreasing_by
    · exact marker?_length _h
    · exact Nat.lt_succ_self _

/-- Gives each piece the line on which it starts, the first one `line`. -/
def number (line : Nat) : List Piece → List Token
  | [] => []
  | (kind, cs) :: more => ⟨kind, String.ofList cs, line⟩ :: number (line + cs.count '\n') more

def all (source : String) : List Token := number 1 (pieces source.toList)

end Token

/-! ## Streams -/

/-- Tokens that are still to be read, and the line of the last one that was. -/
structure TokenStream where
  rest : List Token
  lastLine : Nat
deriving DecidableEq, Repr

namespace TokenStream

def ofTokens (tokens : List Token) : TokenStream := ⟨tokens, 1⟩

def isExhausted (s : TokenStream) : Bool := s.rest.isEmpty

def next? (s : TokenStream) : Option (Token × TokenStream) :=
  match s.rest with
  | [] => none
  | t :: rest => some (t, ⟨rest, t.line⟩)

/-- The stream after every token was read. -/
def drained (s : TokenStream) : TokenStream :=
  ⟨[], (s.rest.getLast?.map Token.line).getD s.lastLine⟩

end TokenStream

end Stencil
