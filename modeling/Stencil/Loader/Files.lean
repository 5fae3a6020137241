import Stencil.Error.Basic
import Stencil.Loader.Path
import Stencil.Loader.Pattern
import Stencil.Text.Lines

/-! # Templates in files -/

namespace Stencil

/-! ## File trees -/

/-- The files below a working directory, by their steps from the top. There are no links. -/
structure FileTree where
  working : List String
  files : List (List String × ByteArray)

/-- The files of a working directory, by their paths in it. -/
def FileTree.ofFiles (working : List String) (files : List (String × ByteArray)) : FileTree :=
  ⟨working, files.map fun (path, bytes) => ((Path.ofText path).resolve working, bytes)⟩

namespace FileTree

/-- A step has at most this many bytes. -/
def maxStepBytes : Nat := 255

/-- A path has fewer bytes than this. -/
def maxPathBytes : Nat := 4096

/-- The bytes of the path to a place: a slash goes before each step. -/
def pathBytes (place : List String) : Nat :=
  place.foldl (fun bytes step => bytes + step.utf8ByteSize + 1) 0

/-- A directory is on the way to the working directory or to a file. -/
def isDirectory (t : FileTree) (place : List String) : Bool :=
  place.isPrefixOf t.working ||
    t.files.any fun (file, _) => place.length < file.length && place.isPrefixOf file

/-- A long step only stands out where there is a directory to look it up in. -/
def isTooLong (t : FileTree) (place : List String) : Bool :=
  let short := place.takeWhile fun step => step.utf8ByteSize ≤ maxStepBytes
  maxPathBytes ≤ pathBytes place || (short.length < place.length && t.isDirectory short)

/-- The bytes of the file at a place, if there is one. -/
def read? (t : FileTree) (place : List String) : Except FileFault (Option ByteArray) :=
  if t.isTooLong place then .error .nameTooLong else .ok (t.files.lookup place)

end FileTree

inductive Encoding
  | utf8
  | latin1
deriving DecidableEq, Repr

/-- The text that bytes encode, with every line end read as a line feed. -/
def Encoding.decode? (e : Encoding) (bytes : ByteArray) : Option String :=
  let text? : Option String := match e with
    | .utf8 => String.fromUTF8? bytes
    | .latin1 => some (String.ofList (bytes.toList.map fun b => Char.ofNat b.toNat))
  text?.map fun text => String.ofList (Text.universalNewlines text.toList)

/-! ## Searching -/

structure Source where
  text : String
  file : Option String
deriving DecidableEq, Repr

/-- Directories that are searched in order, for files named by a pattern. -/
structure FileSearch where
  tree : FileTree
  directories : List Path
  encoding : Encoding
  pattern : String

namespace FileSearch

/-- The pattern applies to the last step of a name. -/
def relativePath (s : FileSearch) (name : String) : Except PatternFault Path := do
  let directory := Text.beforeLast '/' name.toList
  let file ← Pattern.fill s.pattern (String.ofList (Text.afterLast '/' name.toList))
  return (Path.ofText (String.ofList directory)).join (Path.ofText file)

/-- The first directory that has a file of the name; none may be left on the way to it. -/
def searchIn (s : FileSearch) (name : String) (relative : Path) : List Path → Except Error Source
  | [] => .error (.notFound (.absent name (s.directories.map Path.text)))
  | base :: more =>
    let root := base.resolve s.tree.working
    let place := (base.join relative).resolve s.tree.working
    if base.hasNul || relative.hasNul then .error (.file .nulInPath)
    else if !root.isPrefixOf place then .error (.notFound (.outside name))
    else match s.tree.read? place with
      | .ok (some bytes) =>
        match s.encoding.decode? bytes with
        | some text => .ok ⟨text, some (base.join relative).text⟩
        | none => .error (.file .undecodable)
      | .ok none => searchIn s name relative more
      | .error fault => .error (.file fault)

def get (s : FileSearch) (name : String) : Except Error Source :=
  match s.relativePath name with
  | .error fault => .error (.file (.pattern fault))
  | .ok relative => s.searchIn name relative s.directories

end FileSearch

end Stencil
