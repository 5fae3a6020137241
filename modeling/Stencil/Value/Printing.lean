import Stencil.Number.Digits
import Stencil.Number.Shortest
import Stencil.Text.Quoted
import Stencil.Value.Host

/-!
# The text of values

A value with a whole number in it that has too many digits has no text.
-/

namespace Stencil

def LoopRecord.text? (l : LoopRecord) : Option String := do
  let index ← intText? l.index
  let length ← intText? l.length
  return "<ForLoop " ++ index ++ "/" ++ length ++ ">"

namespace Value

/-- A tuple of one keeps its comma. -/
def tupleText : List String → String
  | [one] => "(" ++ one ++ ",)"
  | parts => "(" ++ ", ".intercalate parts ++ ")"

def rangeText? (start stop : Int) : Option String := do
  let first ← intText? start
  let last ← intText? stop
  return "range(" ++ first ++ ", " ++ last ++ ")"

section

variable (host : Host)

mutual

/-- A value as messages and containers show it, with text in quotes. -/
def literal? : Value → Option String
  | .missing => some "MISSING"
  | .nil => some "None"
  | .empty => some "empty"
  | .blank => some "blank"
  | .bool b => some (if b then "True" else "False")
  | .int n => intText? n
  | .float x => some x.text
  | .text s => some (Text.quoted s)
  | .list items => (literals? items).map fun texts => "[" ++ ", ".intercalate texts ++ "]"
  | .tuple items => (literals? items).map tupleText
  | .map entries =>
    (entryLiterals? entries).map fun texts => "\x7b" ++ ", ".intercalate texts ++ "\x7d"
  | .range start stop => rangeText? start stop
  | .loop l => l.text?
  | .object id className attributes => host.literal? (.object id className attributes)

def literals? : List Value → Option (List String)
  | [] => some []
  | v :: vs => do
    let text ← literal? v
    let texts ← literals? vs
    return text :: texts

def entryLiterals? : List (Value × Value) → Option (List String)
  | [] => some []
  | (key, v) :: rest => do
    let name ← literal? key
    let text ← literal? v
    let texts ← entryLiterals? rest
    return (name ++ ": " ++ text) :: texts

end

/-- A value on its own: text as it is, and objects by the text that they give themselves. -/
def display? : Value → Option String
  | .text s => some s
  | .object id className attributes => host.text? (.object id className attributes)
  | v => literal? host v

mutual

/-- What a value adds to the output: nil nothing, a list or tuple its elements in a row. -/
def output? : Value → Option String
  | .nil => some ""
  | .bool b => some (if b then "true" else "false")
  | .list items => outputs? items
  | .tuple items => outputs? items
  | v => display? host v

def outputs? : List Value → Option String
  | [] => some ""
  | v :: vs => do
    let text ← output? v
    let texts ← outputs? vs
    return text ++ texts

end

end

end Value

end Stencil
