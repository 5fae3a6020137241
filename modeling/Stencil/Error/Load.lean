import Stencil.Error.Pattern

/-! # Templates that cannot be found -/

namespace Stencil

/-- Why no template has a name. The last cause is one that a host puts in its own words. -/
inductive LoadError
  | noLoader (name : String)
  | unknown (name : String) (closest : Option String) (available : List String)
  | declined (name : String)
  | nowhere (name : String) (loaders : Nat)
  | outside (name : String)
  | absent (name : String) (directories : List String)
  | stated (message : String)
deriving DecidableEq, Repr

namespace LoadError

/-- Up to ten of the names that there are. -/
def availableText (available : List String) : String :=
  ". Available: " ++ ", ".intercalate (available.take 10) ++
    if 10 < available.length then " ... (" ++ toString available.length ++ " total)" else ""

def message : LoadError → String
  | .noLoader name =>
    "Template '" ++ name ++ "' not found: no loader configured on this Environment"
  | .unknown name closest available =>
    "Template '" ++ name ++ "' not found" ++
      match closest with
      | some other => ". Did you mean '" ++ other ++ "'?"
      | none => if available.isEmpty then "" else availableText available
  | .declined name => "Template '" ++ name ++ "' not found"
  | .nowhere name loaders =>
    "Template '" ++ name ++ "' not found in any of " ++ toString loaders ++ " loaders"
  | .outside name => "Template '" ++ name ++ "' resolves outside the template directory"
  | .absent name directories =>
    "Template '" ++ name ++ "' not found in: " ++ ", ".intercalate directories
  | .stated message => message

end LoadError

/-! ## Files that cannot be read -/

/-- Why a file cannot be read, although it may be there. -/
inductive FileFault
  | undecodable
  | nulInPath
  | nameTooLong
  | pattern (fault : PatternFault)
deriving DecidableEq, Repr

def FileFault.message : FileFault → String
  | .undecodable => "not a text in this encoding"
  | .nulInPath => "embedded null byte"
  | .nameTooLong => "file name too long"
  | .pattern fault => fault.message

end Stencil
