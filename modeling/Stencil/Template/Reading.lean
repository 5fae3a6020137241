import Stencil.Template.Block
import Stencil.Text.Similarity

/-! # Reading templates -/

namespace Stencil

open Text

/-- What a reader knows of the template it reads. -/
structure Origin where
  name : Option String
  source : String
  isPartial : Bool

def Origin.error (o : Origin) (line : Nat) (fault : SyntaxFault) : SyntaxError :=
  ⟨fault, some line, o.name, some o.source, o.isPartial⟩

abbrev Origin.refuse {α : Type} (o : Origin) (line : Nat) (fault : SyntaxFault) :
    Except (Failure SyntaxError) α :=
  .error (.malformed (o.error line fault))

/-- A fault of what stands on this line. A number that is too large has no place. -/
def Origin.locate {α : Type} (o : Origin) (line : Nat) :
    Except (Failure SyntaxFault) α → Except (Failure SyntaxError) α :=
  Except.mapError (·.map (o.error line))

/--
How far a reader has come: the nodes of the body it is in, the last one first, the blocks around
that body from the inside out, and whether the text that comes next is trimmed.
-/
structure Reader where
  nodes : List Node
  opened : List OpenBlock
  trimsNext : Bool

namespace Reader

def start : Reader := ⟨[], [], false⟩

/-! ## White space -/

/-- The nodes without the blanks at the end of a text that comes last. -/
def trimLast : List Node → List Node
  | .text line value :: rest =>
    let cs := trimEnd value.toList
    if cs = [] then rest else .text line (String.ofList cs) :: rest
  | nodes => nodes

def addText (r : Reader) (line : Nat) (value : String) : Reader :=
  let cs := if r.trimsNext then trimStart value.toList else value.toList
  { r with
    nodes := if cs = [] then r.nodes else .text line (String.ofList cs) :: r.nodes
    trimsNext := false }

/-- What the dashes of a marker do. -/
def trimAround (r : Reader) (t : Token) : Reader :=
  { r with
    nodes := if t.trimsLeft then trimLast r.nodes else r.nodes
    trimsNext := t.trimsRight }

/-! ## Tags -/

def addNode (r : Reader) (node : Node) : Reader := { r with nodes := node :: r.nodes }

def openBlock (r : Reader) (name : String) (line : Nat) (block : Block) : Reader :=
  { r with nodes := [], opened := ⟨name, line, block, r.nodes⟩ :: r.opened }

def unknownTag (tags : TagTable) (name : String) : SyntaxFault :=
  if "end".toList.isPrefixOf name.toList || name == "else" || name == "elsif" then
    .unexpectedTag name
  else .unknownTag name (closest? name tags.names)

/-- A tag that ends no body. -/
def startTag (tags : TagTable) (o : Origin) (r : Reader) (line : Nat) (name : String)
    (markup : List Char) : Except (Failure SyntaxError) Reader :=
  match tags.get? name with
  | none => o.refuse line (unknownTag tags name)
  | some kind => do
    match ← o.locate line (kind.start line name markup) with
    | .node node => return r.addNode node
    | .block block => return r.openBlock name line block

/-- A tag that may end the body of the innermost block. -/
def readTag (tags : TagTable) (o : Origin) (r : Reader) (line : Nat) (name : String)
    (markup : List Char) : Except (Failure SyntaxError) Reader :=
  match r.opened with
  | [] => startTag tags o r line name markup
  | inner :: outer =>
    match inner.block.end? inner.line r.nodes.reverse name markup with
    | none => startTag tags o r line name markup
    | some ending => do
      match ← o.locate inner.line ending with
      | .closed node => return { r with nodes := node :: inner.before, opened := outer }
      | .continued block => return { r with nodes := [], opened := { inner with block } :: outer }

/-! ## Tokens -/

/-- A token inside a literal block, which ends at the marker of its name alone. -/
def readLiteral (r : Reader) (inner : OpenBlock) (outer : List OpenBlock) (isComment : Bool)
    (body : List Char) (value : List Char) : Reader :=
  match Literal.closing? inner.name value with
  | none =>
    { r with opened := { inner with block := .literal isComment (body ++ value) } :: outer }
  | some leading =>
    let text := String.ofList (body ++ leading)
    let node : Node :=
      if isComment then .comment inner.line inner.name text else .raw inner.line inner.name text
    { nodes := node :: inner.before, opened := outer, trimsNext := false }

def readMarkup (tags : TagTable) (o : Origin) (r : Reader) (t : Token) :
    Except (Failure SyntaxError) Reader :=
  match t.kind with
  | .text => .ok (r.addText t.line t.value)
  | .output => do
    let e ← o.locate t.line (Expr.parse t.markup)
    return (r.trimAround t).addNode (.output t.line (String.ofList t.markup) e)
  | .tag =>
    match Markup.splitTag? t.markup with
    | none => o.refuse t.line (.invalidTag t.value)
    | some (name, markup) => readTag tags o (r.trimAround t) t.line name markup

def read (tags : TagTable) (o : Origin) (r : Reader) (t : Token) :
    Except (Failure SyntaxError) Reader :=
  match r.opened with
  | inner :: outer =>
    match inner.block with
    | .literal isComment body => .ok (r.readLiteral inner outer isComment body t.value.toList)
    | _ => r.readMarkup tags o t
  | [] => r.readMarkup tags o t

def readAll (tags : TagTable) (o : Origin) :
    Reader → List Token → Except (Failure SyntaxError) Reader
  | r, [] => .ok r
  | r, t :: ts => do
    let r ← r.read tags o t
    readAll tags o r ts

/-- The nodes of a template that leaves no block open. -/
def finish (o : Origin) (r : Reader) : Except (Failure SyntaxError) (List Node) :=
  match r.opened with
  | [] => .ok r.nodes.reverse
  | inner :: _ => o.refuse inner.line (.unterminated inner.name)

end Reader

def Node.ofTokens (tags : TagTable) (o : Origin) (tokens : List Token) :
    Except (Failure SyntaxError) (List Node) := do
  let r ← Reader.start.readAll tags o tokens
  r.finish o

def Template.parse (tags : TagTable) (source : String) (name file : Option String)
    (isPartial : Bool) : Except (Failure SyntaxError) Template := do
  let nodes ← Node.ofTokens tags ⟨name, source, isPartial⟩ (Token.all source)
  return ⟨nodes, name, file, isPartial, source⟩

end Stencil
