import Stencil.Error.Pattern
import Stencil.Text.Quoted

/-! # Parts of names -/

namespace Stencil

open Text

/-! ## The methods of a text -/

def methodNames : List String :=
  ["capitalize", "casefold", "center", "count", "encode", "endswith", "expandtabs", "find",
    "format", "format_map", "index", "isalnum", "isalpha", "isascii", "isdecimal", "isdigit",
    "isidentifier", "islower", "isnumeric", "isprintable", "isspace", "istitle", "isupper", "join",
    "ljust", "lower", "lstrip", "partition", "removeprefix", "removesuffix", "replace", "rfind",
    "rindex", "rjust", "rpartition", "rsplit", "rstrip", "split", "splitlines", "startswith",
    "strip", "swapcase", "title", "translate", "upper", "zfill", "__dir__", "__format__",
    "__getnewargs__", "__getstate__", "__reduce__", "__reduce_ex__", "__sizeof__"]

/-- The methods behind operators. -/
def operatorNames : List String :=
  ["__add__", "__contains__", "__delattr__", "__eq__", "__ge__", "__getattribute__", "__getitem__",
    "__gt__", "__hash__", "__init__", "__iter__", "__le__", "__len__", "__lt__", "__mod__",
    "__mul__", "__ne__", "__repr__", "__rmod__", "__rmul__", "__setattr__", "__str__"]

/-- The methods of the type rather than of its texts. -/
def typeMethodNames : List String :=
  ["maketrans", "__init_subclass__", "__new__", "__subclasshook__"]

inductive MethodKind
  | plain
  | operator
  | ofType
deriving DecidableEq, Repr

def methodKind? (name : String) : Option MethodKind :=
  if methodNames.contains name then some .plain
  else if operatorNames.contains name then some .operator
  else if typeMethodNames.contains name then some .ofType
  else none

/-! ## Parts -/

/-- What a field of a pattern leads to: a text, a type, several types, or a method. -/
inductive Part
  | text (s : String)
  | type (name : String)
  | types (names : List String)
  | method (name : String) (kind : MethodKind) (owner : String)
  | unbound (name : String) (kind : MethodKind)
deriving DecidableEq, Repr

namespace Part

def typeName : Part → String
  | .text _ => "str"
  | .type _ => "type"
  | .types _ => "tuple"
  | .method _ .operator _ => "method-wrapper"
  | .method .. => "builtin_function_or_method"
  | .unbound _ .operator => "wrapper_descriptor"
  | .unbound .. => "method_descriptor"

def ancestors (name : String) : List String :=
  if name = "object" then ["object"] else [name, "object"]

/-- Where a method lies in memory is not known; zeros stand for it. -/
def addressText : String := " object at 0x000000000000>"

def typeText (name : String) : String := "<class '" ++ name ++ "'>"

/-- Several values between parentheses; a comma follows a single one. -/
def tupleText : List String → String
  | [s] => "(" ++ s ++ ",)"
  | parts => "(" ++ ", ".intercalate parts ++ ")"

def shown : Part → String
  | .text s => s
  | .type name => typeText name
  | .types names => tupleText (names.map typeText)
  | .method name .plain _ => "<built-in method " ++ name ++ " of str" ++ addressText
  | .method name .operator _ => "<method-wrapper '" ++ name ++ "' of str" ++ addressText
  | .method name .ofType _ => "<built-in method " ++ name ++ " of type" ++ addressText
  | .unbound name .operator => "<slot wrapper '" ++ name ++ "' of 'str' objects>"
  | .unbound name _ => "<method '" ++ name ++ "' of 'str' objects>"

/-- Text in quotes; the rest as it is shown. -/
def quotedWith (quote : String → String) : Part → String
  | .text s => quote s
  | p => p.shown

/-! ## Reading parts -/

def textAttribute? (s name : String) : Option Part :=
  if name = "__class__" then some (.type "str")
  else (methodKind? name).map fun kind => .method name kind s

/-- The methods of a text may also be read from its type. -/
def unboundMethod? (typeName name : String) : Option Part :=
  if typeName = "str" then
    (methodKind? name).map fun kind =>
      if kind = .ofType then .method name kind typeName else .unbound name kind
  else none

def typeAttribute? (typeName name : String) : Option Part :=
  match name with
  | "__name__" => some (.text typeName)
  | "__qualname__" => some (.text typeName)
  | "__module__" => some (.text "builtins")
  | "__class__" => some (.type "type")
  | "__mro__" => some (.types (ancestors typeName))
  | "__bases__" => some (.types (ancestors typeName).tail)
  | "__base__" => (ancestors typeName).tail.head?.map .type
  | _ => unboundMethod? typeName name

def methodAttribute? (p : Part) (own name : String) : Option Part :=
  match name with
  | "__name__" => some (.text own)
  | "__class__" => some (.type p.typeName)
  | _ => none

def attribute? (p : Part) (name : String) : Option Part :=
  match p with
  | .text s => textAttribute? s name
  | .type typeName => typeAttribute? typeName name
  | .types _ => if name = "__class__" then some (.type p.typeName) else none
  | .method own .ofType _ => p.methodAttribute? own name
  | .method own _ owner =>
    if name = "__self__" then some (.text owner) else p.methodAttribute? own name
  | .unbound own _ => p.methodAttribute? own name

def description : Part → String
  | .type name => "type object '" ++ name ++ "'"
  | p => "'" ++ p.typeName ++ "' object"

def readAttribute (p : Part) (name : String) : Except PatternFault Part :=
  match p.attribute? name with
  | some found => .ok found
  | none => .error (.noPart p.description name)

/-- The item at a place, if a number gives the place. -/
def readItem (p : Part) (place : Option Nat) : Except PatternFault Part :=
  match p, place with
  | .text s, some n => match s.toList[n]? with
    | some c => .ok (.text (String.singleton c))
    | none => .error .outOfRange
  | .text _, none => .error .notAPlace
  | .types names, some n => match names[n]? with
    | some name => .ok (.type name)
    | none => .error .outOfRange
  | .types _, none => .error .notAnIndex
  | .type name, _ => .error (.noItems ("type '" ++ name ++ "'"))
  | p, _ => .error (.noItems p.description)

end Part

end Stencil
