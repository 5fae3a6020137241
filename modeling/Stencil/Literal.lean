import Stencil.Error.Syntax
import Stencil.Text.Word
import Stencil.Token

/-! # Literal blocks -/

namespace Stencil.Literal

open Text

/-- The tag name at the start of a marker, after a dash and blanks. -/
def markerName (inner : List Char) : List Char :=
  let inner := match inner with
    | '-' :: rest => rest
    | inner => inner
  (trimStart inner).takeWhile isWordChar

/--
What stands before the last opener that a tag name follows, and that name. The two last characters
close the marker and belong to no name.
-/
def lastMarker? : List Char → Option (List Char × List Char)
  | [] => none
  | c :: rest =>
    match lastMarker? rest with
    | some (leading, name) => some (c :: leading, name)
    | none =>
      match c, rest with
      | '{', '%' :: inner =>
        let name := markerName (inner.take (inner.length - 2))
        if name = [] then none else some ([], name)
      | _, _ => none

/-- The text before the marker that a token ends in, and the name in the marker. -/
def splitMarker (value : List Char) : List Char × Option (List Char) :=
  if ['%', '}'].isSuffixOf value then
    match lastMarker? value with
    | some (leading, name) => (leading, some name)
    | none => (value, none)
  else (value, none)

/-- The text before the marker that closes `block`, for a token that ends in one. -/
def closing? (block : String) (value : List Char) : Option (List Char) :=
  match splitMarker value with
  | (leading, some name) => if name = "end".toList ++ block.toList then some leading else none
  | (_, none) => none

/-- The text of a literal block, and the tokens after the one that closes it. -/
def scan? (block : String) : List Token → Option (List Char × List Token)
  | [] => none
  | t :: rest =>
    match closing? block t.value.toList with
    | some leading => some (leading, rest)
    | none => (scan? block rest).map fun (body, after) => (t.value.toList ++ body, after)

/-- Reads a literal block off a stream. One that is never closed takes up the whole stream. -/
def scan (block : String) (s : TokenStream) : Except SyntaxError String × TokenStream :=
  match scan? block s.rest with
  | some (body, rest) =>
    let read := s.rest.take (s.rest.length - rest.length)
    let line := (read.getLast?.map Token.line).getD s.lastLine
    (.ok (String.ofList body), ⟨rest, line⟩)
  | none => (.error (.ofFault (.unterminated block)), s.drained)

end Stencil.Literal
