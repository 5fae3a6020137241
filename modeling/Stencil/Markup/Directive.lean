import Stencil.Expr.Parsing
import Stencil.Markup.Fragment

/-! # The markup of tags -/

namespace Stencil.Markup

open Text

/-- The name of a tag and its markup without blanks around it. -/
def splitTag? (markup : List Char) : Option (String × List Char) :=
  let name := markup.takeWhile isWordChar
  if name = [] then none
  else some (String.ofList name, trim (markup.dropWhile isWordChar))

def afterBlanks? (cs : List Char) : Option (List Char) :=
  match cs with
  | [] => none
  | c :: _ => if isBlank c then some (trimStart cs) else none

def afterWord? (word : String) (cs : List Char) : Option (List Char) :=
  if word.toList.isPrefixOf cs then some (cs.drop word.length) else none

/-! ## Assignments -/

/-- A target, an equal sign, and the expression after it. -/
def splitAssign? (markup : List Char) : Option (List Char × List Char) :=
  let target := markup.takeWhile isNameChar
  match trimStart (markup.dropWhile isNameChar) with
  | '=' :: rest =>
    let source := trimStart rest
    if target = [] ∨ source = [] then none else some (target, source)
  | _ => none

structure Assignment where
  target : String
  source : Expr

def Assignment.parse (markup : List Char) : Except (Failure SyntaxFault) Assignment :=
  match splitAssign? markup with
  | none => .error (.malformed (.assign (String.ofList markup)))
  | some (target, source) => do
    let e ← Expr.parse source
    return ⟨String.ofList target, e⟩

/-! ## Loops -/

/-- The pieces of a loop's markup. Of an attribute that is given twice the last counts. -/
structure LoopMarkup where
  item : String
  collection : List Char
  isReversed : Bool
  limit : Option (List Char)
  offset : Option (List Char)

def afterReversed? (cs : List Char) : Option (List Char) := do
  let rest ← afterBlanks? cs
  let rest ← afterWord? "reversed" rest
  if (rest.head?.map isWordChar).getD false then none else some rest

def lastValue (key : String) (found : List (List Char × List Char)) : Option (List Char) :=
  found.reverse.lookup key.toList

def LoopMarkup.split? (markup : List Char) : Option LoopMarkup := do
  let item := markup.takeWhile isWordChar
  if item = [] then none
  else
    let rest ← afterBlanks? (markup.dropWhile isWordChar)
    let rest ← afterWord? "in" rest
    let rest ← afterBlanks? rest
    let (collection, rest) ← fragment? rest
    let (isReversed, rest) := match afterReversed? rest with
      | some rest => (true, rest)
      | none => (false, rest)
    let found := Markup.attributes rest
    return ⟨String.ofList item, collection, isReversed, lastValue "limit" found,
      lastValue "offset" found⟩

/-- What a loop runs over, and under which name. -/
structure LoopHead where
  item : String
  collection : Expr
  isReversed : Bool
  limit : Option Expr
  offset : Option Expr

def parseOptional (cs : Option (List Char)) : Except (Failure SyntaxFault) (Option Expr) :=
  match cs with
  | none => .ok none
  | some cs => (Expr.parse cs).map some

def LoopMarkup.parse (m : LoopMarkup) : Except (Failure SyntaxFault) LoopHead := do
  let collection ← Expr.parse m.collection
  let limit ← parseOptional m.limit
  let offset ← parseOptional m.offset
  return ⟨m.item, collection, m.isReversed, limit, offset⟩

/-! ## Inclusions -/

/--
The name of a partial, what to bind, and further variables; `markup` is all of it, for messages.
-/
structure Inclusion where
  template : Expr
  bound : Option Expr
  attributes : List (String × Expr)
  markup : String

/-- The words `with` and `for`, with blanks around them, and the fragment after them. -/
def boundFragment? (cs : List Char) : Option (List Char × List Char) := do
  let rest ← afterBlanks? cs
  let rest ← (afterWord? "with" rest).orElse fun _ => afterWord? "for" rest
  let rest ← afterBlanks? rest
  fragment? rest

def Inclusion.parse (tag : String) (markup : List Char) : Except (Failure SyntaxFault) Inclusion :=
  match fragment? markup with
  | none => .error (.malformed (.inclusion tag (String.ofList markup)))
  | some (name, rest) => do
    let (bound, rest) := match boundFragment? rest with
      | some (fragment, rest) => (some fragment, rest)
      | none => (none, rest)
    let found ← (Markup.attributes rest).mapM fun (key, value) => do
      let e ← Expr.parse value
      return (String.ofList key, e)
    let template ← Expr.parse name
    let bound ← parseOptional bound
    return ⟨template, bound, found, String.ofList markup⟩

end Stencil.Markup
