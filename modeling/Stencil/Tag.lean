import Stencil.Scope

/-! # Tags -/

namespace Stencil

/-! ## Kinds of tags -/

/-- What a tag of the host sees of a rendering. -/
structure TagView where
  scope : Scope
  template : Option String
  isPartial : Bool
  depth : Nat

/-- A tag that the host defines: what it writes, given its markup. -/
structure InlineTag where
  name : String
  write : String → TagView → String

/-- How a tag is read and rendered, whatever name it is registered under. -/
inductive TagKind
  | assign
  | comment
  | loop
  | conditional
  | unless
  | ifChanged
  | inclusion
  | raw
  | inline (tag : InlineTag)

/-! ## Tag tables -/

/-- The tags that a template may use, by name. -/
abbrev TagTable := List (String × TagKind)

namespace TagTable

def default : TagTable :=
  [("assign", .assign), ("comment", .comment), ("for", .loop), ("if", .conditional),
    ("ifchanged", .ifChanged), ("include", .inclusion), ("raw", .raw), ("unless", .unless)]

def get? (table : TagTable) (name : String) : Option TagKind := table.lookup name

def names (table : TagTable) : List String := table.map (·.1)

def binds (table : TagTable) (name : String) : Bool := (table.get? name).isSome

/-- A name that is registered again keeps its place. -/
def insert (table : TagTable) (name : String) (kind : TagKind) : TagTable :=
  match table with
  | [] => [(name, kind)]
  | (name', kind') :: rest =>
    if name' = name then (name, kind) :: rest else (name', kind') :: insert rest name kind

def insertAll (table : TagTable) (tags : List (String × TagKind)) : TagTable :=
  tags.foldl (fun t (name, kind) => TagTable.insert t name kind) table

/-- The table without a name that is in it. -/
def erase? (table : TagTable) (name : String) : Option TagTable :=
  if table.binds name then some (table.filter (·.1 ≠ name)) else none

end TagTable

end Stencil
