import Stencil.Loader.Files
import Stencil.Text.Order
import Stencil.Text.Similarity

/-! # Loaders -/

namespace Stencil

/-- What a loading function may answer. -/
inductive Answer
  | text (s : String)
  | source (s : Source)

inductive Loader
  | memory (templates : List (String × String))
  | choice (loaders : List Loader)
  | function (load : String → Option Answer)
  | files (search : FileSearch)

namespace Loader

def sortedNames (templates : List (String × String)) : List String :=
  Text.sorted (templates.map (·.1))

def getFromMemory (templates : List (String × String)) (name : String) : Except Error Source :=
  match templates.lookup name with
  | some text => .ok ⟨text, none⟩
  | none =>
    let available := sortedNames templates
    .error (.notFound (.unknown name (Text.closest? name available) available))

def getFromFunction (load : String → Option Answer) (name : String) : Except Error Source :=
  match load name with
  | some (.text s) => .ok ⟨s, some "<function>"⟩
  | some (.source s) => .ok s
  | none => .error (.notFound (.declined name))

mutual

def get (name : String) : Loader → Except Error Source
  | .memory templates => getFromMemory templates name
  | .choice loaders => getFirst name loaders.length loaders
  | .function load => getFromFunction load name
  | .files search => search.get name

/-- The answer of the first loader that has the template; other failures end the search. -/
def getFirst (name : String) (count : Nat) : List Loader → Except Error Source
  | [] => .error (.notFound (.nowhere name count))
  | loader :: more =>
    match get name loader with
    | .error (.notFound _) => getFirst name count more
    | found => found

end

/-! ## Templates that change -/

/-- Puts a template among those in memory; other loaders stay as they are. -/
def setTemplate (name source : String) : Loader → Loader
  | .memory templates => .memory (put templates)
  | loader => loader
where
  put : List (String × String) → List (String × String)
    | [] => [(name, source)]
    | (name', source') :: rest =>
      if name' = name then (name, source) :: rest else (name', source') :: put rest

def eraseTemplate (name : String) : Loader → Loader
  | .memory templates => .memory (templates.filter (·.1 ≠ name))
  | loader => loader

end Loader

end Stencil
