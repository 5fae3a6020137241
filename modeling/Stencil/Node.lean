import Stencil.Condition.Basic
import Stencil.Markup.Directive
import Stencil.Tag

/-! # Template trees -/

namespace Stencil

open Markup

/-- A part of a template, with the line of its token. -/
inductive Node
  | text (line : Nat) (value : String)
  | output (line : Nat) (markup : String) (e : Expr)
  | raw (line : Nat) (name body : String)
  | comment (line : Nat) (name body : String)
  | assign (line : Nat) (assignment : Assignment)
  | ifChanged (line : Nat) (body : List Node)
  | conditional (line : Nat) (isNegated : Bool) (branches : List (Chain × List Node))
      (otherwise : List Node)
  | loop (line : Nat) (head : LoopHead) (body otherwise : List Node)
  | inclusion (line : Nat) (inclusion : Inclusion)
  | inline (line : Nat) (tag : InlineTag) (markup : String)

namespace Node

def line : Node → Nat
  | .text line _ => line
  | .output line _ _ => line
  | .raw line _ _ => line
  | .comment line _ _ => line
  | .assign line _ => line
  | .ifChanged line _ => line
  | .conditional line _ _ _ => line
  | .loop line _ _ _ => line
  | .inclusion line _ => line
  | .inline line _ _ => line

def isBlank : Node → Bool
  | .text _ value => Text.allBlank value
  | .raw _ _ body => body.isEmpty
  | .comment .. => true
  | .assign .. => true
  | _ => false

end Node

/-! ## Templates -/

structure Template where
  nodes : List Node
  name : Option String
  file : Option String
  isPartial : Bool
  source : String

namespace Template

def isBlank (t : Template) : Bool := t.nodes.all Node.isBlank

/-- A short text to tell templates apart by. -/
def text (t : Template) : String :=
  let name := (t.name.filter (!·.isEmpty)).getD "<string>"
  "<Template " ++ Text.quoted name ++ (if t.isPartial then " (partial)>" else " (template)>")

end Template

end Stencil
