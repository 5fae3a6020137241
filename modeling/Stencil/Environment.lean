import Stencil.Loader.Basic
import Stencil.Template.Reading
import Stencil.Value.Host

/-! # Environments -/

namespace Stencil

/--
What stays the same across renderings: where templates come from, whether variables must be bound,
how deep inclusions may nest, variables for every rendering, the tags, and how host objects behave.
-/
structure Environment where
  loader : Option Loader
  strict : Bool
  maxDepth : Int
  globals : Frame
  tags : TagTable
  host : Host

namespace Environment

/-- An environment with the tags of this library and at least one level of inclusion. -/
def make (loader : Option Loader) (strict : Bool) (maxDepth : Int) (globals : Frame)
    (host : Host) : Except String Environment :=
  if maxDepth < 1 then
    .error ("max_include_depth must be at least 1, got " ++ toString maxDepth)
  else .ok ⟨loader, strict, maxDepth, globals, TagTable.default, host⟩

def getSource (env : Environment) (name : String) : Except Error Source :=
  match env.loader with
  | none => .error (.notFound (.noLoader name))
  | some loader => loader.get name

def parse (env : Environment) (source : String) (name file : Option String) (isPartial : Bool) :
    Except Error Template :=
  match Template.parse env.tags source name file isPartial with
  | .ok t => .ok t
  | .error (.malformed e) => .error (.malformed e)
  | .error (.overflow o) => .error (.overflow o)

def load (env : Environment) (name : String) (isPartial : Bool) : Except Error Template := do
  let source ← env.getSource name
  env.parse source.text (some name) source.file isPartial

def getTemplate (env : Environment) (name : String) : Except Error Template := env.load name false

end Environment

end Stencil
