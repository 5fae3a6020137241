/-! # Paths -/

namespace Stencil

/-- A path by its steps. `root` is empty for a relative path. -/
structure Path where
  root : String
  steps : List String
deriving DecidableEq, Repr

namespace Path

/-- Steps that go nowhere are left out; steps up stay. -/
def stepsOf (cs : List Char) : List String :=
  ((cs.splitOn '/').map String.ofList).filter fun step => step ≠ "" && step ≠ "."

/-- Two slashes at the start, and no more, are a root of their own. -/
def rootOf : List Char → String
  | '/' :: '/' :: '/' :: _ => "/"
  | '/' :: '/' :: _ => "//"
  | '/' :: _ => "/"
  | _ => ""

def ofText (s : String) : Path := ⟨rootOf s.toList, stepsOf s.toList⟩

def isAbsolute (p : Path) : Bool := p.root ≠ ""

/-- An absolute path takes the place of what comes before it. -/
def join (p q : Path) : Path := if q.isAbsolute then q else ⟨p.root, p.steps ++ q.steps⟩

def text (p : Path) : String :=
  if p.root = "" && p.steps.isEmpty then "." else p.root ++ "/".intercalate p.steps

/-- No file can have a path with the character zero in it. -/
def hasNul (p : Path) : Bool := p.steps.any (·.toList.contains '\x00')

/-! ## Places -/

/-- The steps from the top after one more step; there is nothing above the top. -/
def walk (place : List String) (step : String) : List String :=
  if step = ".." then place.dropLast else place ++ [step]

def resolve (p : Path) (working : List String) : List String :=
  p.steps.foldl walk (if p.isAbsolute then [] else working)

end Path

end Stencil
