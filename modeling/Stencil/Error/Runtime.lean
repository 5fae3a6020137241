import Stencil.Error.Kind
import Stencil.Error.Place
import Stencil.Text.Similarity

/-! # Templates that cannot be rendered -/

namespace Stencil

/-! ## Causes -/

/--
Why rendering stopped, with the texts of the values that were wrong. The last cause is one that a
host puts in its own words.
-/
inductive RuntimeFault
  | bounds (start stop : String)
  | loopArgument (text : String)
  | reading (key typeName message : String)
  | comparison (left right : String)
  | missingName
  | nameType (typeName : String)
  | depth (limit : Int) (name : String)
  | stated (kind : RuntimeKind) (message : String) (suggestion : Option String)
deriving DecidableEq, Repr

namespace RuntimeFault

def kind : RuntimeFault → RuntimeKind
  | .bounds .. | .loopArgument _ | .reading .. | .comparison .. => .evaluation
  | .missingName => .missingName
  | .nameType _ => .argument
  | .depth .. => .depth
  | .stated kind _ _ => kind

def message : RuntimeFault → String
  | .bounds start stop =>
    "Range bounds must be integers, got " ++ start ++ ".." ++ stop
  | .loopArgument text => "Loop limit and offset must be integers, got " ++ text
  | .reading key typeName message =>
    "Error reading " ++ key ++ " from " ++ typeName ++ ": " ++ message
  | .comparison left right => "Comparison of " ++ left ++ " with " ++ right ++ " failed"
  | .missingName => "Include template name evaluated to an empty value"
  | .nameType typeName => "Include template name must be a string, got " ++ typeName
  | .depth limit name =>
    "Maximum include depth exceeded (" ++ toString limit ++ ") when including '" ++ name ++ "'"
  | .stated _ message _ => message

def suggestion : RuntimeFault → Option String
  | .missingName => some "Pass a non-empty template name, e.g. \x7b% include 'card' %\x7d"
  | .depth .. => some "Check for circular includes: A -> B -> A"
  | .stated _ _ suggestion => suggestion
  | _ => none

end RuntimeFault

/-! ## Errors -/

/-- A cause, the expression that has it, and where rendering had come. -/
structure RuntimeError where
  fault : RuntimeFault
  expression : Option String
  template : Option String
  line : Option Int
  chain : IncludeChain
deriving DecidableEq, Repr

namespace RuntimeError

def expressionLines (e : RuntimeError) : List String :=
  match stated? e.expression with
  | some expression => ["  Expression: " ++ expression]
  | none => []

def placeLine (e : RuntimeError) (coloured : Bool) : String :=
  "  Location: " ++ Terminal.location coloured (placeText e.template e.line)

/-- A name or a line says where the error stands. -/
def isPlaced (e : RuntimeError) : Bool :=
  (stated? e.template).isSome || e.line.any (· ≠ 0)

def message (e : RuntimeError) (coloured : Bool) : String :=
  let chain := if e.chain.isEmpty then [] else ["", chainText coloured e.chain]
  let suggestion := match stated? e.fault.suggestion with
    | some text => ["\n  " ++ Terminal.hint coloured "Suggestion:" ++ " " ++ text]
    | none => []
  "\n".intercalate
    (["Runtime Error: " ++ e.fault.message] ++
      (if e.isPlaced then [e.placeLine coloured] else []) ++ chain ++ e.expressionLines ++
      suggestion)

/-- The error on one screen, after its code. -/
def compact (e : RuntimeError) (coloured : Bool) : String :=
  let hint := match stated? e.fault.suggestion with
    | some text => ["  " ++ Terminal.hint coloured "Hint:" ++ " " ++ text]
    | none => []
  "\n".intercalate
    ([Terminal.header coloured (some e.fault.kind.code.text) e.fault.message,
      e.placeLine coloured] ++ e.expressionLines ++ hint)

end RuntimeError

/-! ## Undefined variables -/

/-- A variable that nothing binds, where every variable must be bound. -/
structure UndefinedError where
  name : String
  template : Option String
  line : Option Int
  available : List String
deriving DecidableEq, Repr

namespace UndefinedError

def templateName (e : UndefinedError) : String := (stated? e.template).getD namelessTemplate

def rootName (e : UndefinedError) : String :=
  String.ofList (e.name.toList.takeWhile fun c => c ≠ '.' && c ≠ '[')

/-- The bound name closest to the one that is not. -/
def closest? (e : UndefinedError) : Option String :=
  (Text.closest? e.rootName e.available).filter (· ≠ e.rootName)

def message (e : UndefinedError) (coloured : Bool) : String :=
  let place := placeText (some e.templateName) e.line
  "Undefined variable '" ++ e.name ++ "' in " ++ Terminal.location coloured place ++
    match e.closest? with
    | some name => ". Did you mean '" ++ Terminal.suggestion coloured name ++ "'?"
    | none => ""

end UndefinedError

end Stencil
