import Stencil.Error.Code
import Stencil.Error.Place
import Stencil.Text.Lines
import Stencil.Text.Quoted

/-! # Templates that cannot be read -/

namespace Stencil

/-! ## Causes -/

inductive ExprFault
  | unexpectedChar (c : Char)
  | unexpectedEnd
  | unexpected (lexeme : String)
  | expected (wanted found : String)
  | noDots
  | noAttribute (found : String)
deriving DecidableEq, Repr

def ExprFault.message : ExprFault → String
  | .unexpectedChar c => "Unexpected character " ++ Text.quoted (String.singleton c)
  | .unexpectedEnd => "Unexpected end"
  | .unexpected lexeme => "Unexpected '" ++ lexeme ++ "'"
  | .expected wanted found => "Expected '" ++ wanted ++ "', got '" ++ found ++ "'"
  | .noDots => "Expected '..' in range"
  | .noAttribute found => "Expected attribute name after '.', got '" ++ found ++ "'"

/-- What is wrong with a template. The last cause is one that a host puts in its own words. -/
inductive SyntaxFault
  | invalidTag (value : String)
  | unexpectedTag (name : String)
  | unknownTag (name : String) (closest : Option String)
  | expression (fault : ExprFault) (markup : String)
  | noCondition
  | condition (clause markup : String)
  | assign (markup : String)
  | loop (markup : String)
  | inclusion (tag markup : String)
  | arguments (tag : String)
  | unterminated (block : String)
  | stated (message : String) (suggestion : Option String)
deriving DecidableEq, Repr

namespace SyntaxFault

def message : SyntaxFault → String
  | .invalidTag value => "Invalid tag '" ++ value ++ "'"
  | .unexpectedTag name => "Unexpected tag '" ++ name ++ "'"
  | .unknownTag name _ => "Unknown tag '" ++ name ++ "'"
  | .expression fault markup => fault.message ++ " in expression '" ++ markup ++ "'"
  | .noCondition => "Missing condition"
  | .condition clause markup => "Invalid condition '" ++ clause ++ "' in '" ++ markup ++ "'"
  | .assign markup => "Invalid 'assign' tag: '" ++ markup ++ "'"
  | .loop markup => "Invalid 'for' tag: '" ++ markup ++ "'"
  | .inclusion tag markup => "Invalid '" ++ tag ++ "' tag: '" ++ markup ++ "'"
  | .arguments tag => "'" ++ tag ++ "' tag does not take arguments"
  | .unterminated block => "'" ++ block ++ "' tag was never closed"
  | .stated message _ => message

def suggestion : SyntaxFault → Option String
  | .unexpectedTag _ => some "Check that block tags are opened and closed in matching order"
  | .unknownTag _ closest => closest.map fun name => "Did you mean '" ++ name ++ "'?"
  | .assign _ => some "Valid syntax: assign [var] = [source]"
  | .loop _ => some "Valid syntax: for [item] in [collection]"
  | .inclusion tag _ =>
    some ("Valid syntax: " ++ tag ++ " '[template]' (with|for) [object|collection]")
  | .arguments tag => some ("Use \x7b% " ++ tag ++ " %\x7d with nothing after the tag name")
  | .unterminated block => some ("Add \x7b% end" ++ block ++ " %\x7d to close the block")
  | .stated _ suggestion => suggestion
  | _ => none

def code : SyntaxFault → ErrorCode
  | .unknownTag .. => .unknownTag
  | .expression .. => .invalidExpression
  | .arguments _ => .unexpectedArguments
  | .unterminated _ => .unclosedBlock
  | _ => .syntaxError

end SyntaxFault

/-! ## Errors -/

/-- A cause with its place, as far as it is known. -/
structure SyntaxError where
  fault : SyntaxFault
  line : Option Int
  name : Option String
  source : Option String
  isPartial : Bool
deriving DecidableEq, Repr

namespace SyntaxError

def ofFault (fault : SyntaxFault) : SyntaxError := ⟨fault, none, none, none, false⟩

/-- Fills in what is not known yet. -/
def locate (e : SyntaxError) (line : Option Int) (name source : Option String) (isPartial : Bool) :
    SyntaxError :=
  { e with
    line := e.line.orElse fun _ => line
    name := e.name.orElse fun _ => name
    source := e.source.orElse fun _ => source
    isPartial := e.isPartial || isPartial }

def sourceLine? (e : SyntaxError) : Option (Int × String) :=
  match e.source, e.line with
  | some source, some n =>
    if 0 < n then
      ((Text.lines source.toList)[n.toNat - 1]?).map fun line => (n, String.ofList line)
    else none
  | _, _ => none

/-- A number in at least three columns. -/
def lineNumber (n : Int) : String :=
  let digits := toString n
  String.ofList (List.replicate (3 - digits.length) ' ') ++ digits

def message (e : SyntaxError) (coloured : Bool) : String :=
  let place := placeText e.name e.line ++ (if e.isPartial then " (partial)" else "")
  let quote := match e.sourceLine? with
    | some (n, line) => ["   |", lineNumber n ++ " | " ++ line, "   |"]
    | none => []
  let hint := match stated? e.fault.suggestion with
    | some text => ["  " ++ Terminal.hint coloured "Hint:" ++ " " ++ text]
    | none => []
  "\n".intercalate
    (["Syntax Error: " ++ e.fault.message, "  --> " ++ Terminal.location coloured place] ++
      quote ++ hint)

end SyntaxError

end Stencil
