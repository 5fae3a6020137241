import Stencil.Literal
import Stencil.Node

/-! # Open blocks -/

namespace Stencil

open Markup

/-- A block whose end tag has not come yet, with what is known of it so far. -/
inductive Block
  | branches (isNegated : Bool) (earlier : List (Chain × List Node)) (condition : Chain)
  | otherwise (isNegated : Bool) (conditions : List (Chain × List Node))
  | loop (markup : LoopMarkup)
  | loopOtherwise (markup : LoopMarkup) (body : List Node)
  | ifChanged
  | literal (isComment : Bool) (body : List Char)

/-- A block with its opening tag, and the nodes before it, the last one first. -/
structure OpenBlock where
  name : String
  line : Nat
  block : Block
  before : List Node

/-! ## Ends of bodies -/

/-- What an end tag does to a block: it closes it, or it starts the next body. -/
inductive BodyEnd
  | closed (node : Node)
  | continued (block : Block)

/-- A conditional closes under its own name, whatever name it is registered under. -/
def conditionalEnd (isNegated : Bool) : String := if isNegated then "endunless" else "endif"

def closeLoop (line : Nat) (markup : LoopMarkup) (body otherwise : List Node) :
    Except (Failure SyntaxFault) BodyEnd := do
  let head ← markup.parse
  return .closed (.loop line head body otherwise)

/-- What a tag does that comes after `body` in a block; none if it does not end the body. -/
def Block.end? (line : Nat) (body : List Node) (tag : String) (markup : List Char) :
    Block → Option (Except (Failure SyntaxFault) BodyEnd)
  | .branches isNegated earlier condition =>
    let earlier := earlier ++ [(condition, body)]
    if tag = conditionalEnd isNegated then
      some (.ok (.closed (.conditional line isNegated earlier [])))
    else if tag = "else" then some (.ok (.continued (.otherwise isNegated earlier)))
    else if tag = "elsif" then
      some ((Chain.parse markup).map fun next => .continued (.branches isNegated earlier next))
    else none
  | .otherwise isNegated conditions =>
    if tag = conditionalEnd isNegated then
      some (.ok (.closed (.conditional line isNegated conditions body)))
    else none
  | .loop head =>
    if tag = "endfor" then some (closeLoop line head body [])
    else if tag = "else" then some (.ok (.continued (.loopOtherwise head body)))
    else none
  | .loopOtherwise head main =>
    if tag = "endfor" then some (closeLoop line head main body) else none
  | .ifChanged =>
    if tag = "endifchanged" then some (.ok (.closed (.ifChanged line body))) else none
  | .literal .. => none

/-! ## Starts of tags -/

/-- What a tag starts: a node that is whole, or a block. -/
inductive TagStart
  | node (node : Node)
  | block (block : Block)

/-- Literal blocks take no arguments. -/
def startLiteral (isComment : Bool) (name : String) (markup : List Char) :
    Except (Failure SyntaxFault) TagStart :=
  if markup = [] then .ok (.block (.literal isComment []))
  else .error (.malformed (.arguments name))

def TagKind.start (line : Nat) (name : String) (markup : List Char) :
    TagKind → Except (Failure SyntaxFault) TagStart
  | .assign => do
    let assignment ← Assignment.parse markup
    return .node (.assign line assignment)
  | .inclusion => do
    let inclusion ← Inclusion.parse name markup
    return .node (.inclusion line inclusion)
  | .inline tag => .ok (.node (.inline line tag (String.ofList markup)))
  | .conditional => do
    let condition ← Chain.parse markup
    return .block (.branches false [] condition)
  | .unless => do
    let condition ← Chain.parse markup
    return .block (.branches true [] condition)
  | .loop =>
    match LoopMarkup.split? markup with
    | some head => .ok (.block (.loop head))
    | none => .error (.malformed (.loop (String.ofList markup)))
  | .ifChanged => .ok (.block .ifChanged)
  | .raw => startLiteral false name markup
  | .comment => startLiteral true name markup

end Stencil
