import Stencil.Error.Overflow
import Stencil.Text.Search
import Stencil.Value.Equality

/-! # Reading parts of values -/

namespace Stencil.Value

inductive ReadFault
  | badKey (typeName : String)
  | own (kind : ErrorKind) (message : String)
  | other (message : String)
deriving DecidableEq, Repr

namespace ReadFault

def message : ReadFault → String
  | .badKey typeName => "unhashable type: '" ++ typeName ++ "'"
  | .own _ message => message
  | .other message => message

end ReadFault

/-- The element at a place, counted from the end when it is negative. -/
def elementAt? {α : Type} (items : List α) (place : Int) : Option α :=
  let i := if place < 0 then place + items.length else place
  if i < 0 then none else items[i.toNat]?

/-- Attributes that start with an underscore are private, and methods are not values. -/
def readAttribute (attributes : List (String × Attribute)) (name : String) :
    Except ReadFault Value :=
  if name.toList.head? = some '_' then .ok .missing
  else match attributes.lookup name with
    | some (.holds v) => .ok v
    | some .method => .ok .missing
    | some (.raises .absent) => .ok .missing
    | some (.raises (.own kind message)) => .error (.own kind message)
    | some (.raises (.other message)) => .error (.other message)
    | none => .ok .missing

def readNamedElement (items : List Value) (name : String) : Value :=
  match name with
  | "size" => .int items.length
  | "first" => items.head?.getD .nil
  | "last" => items.getLast?.getD .nil
  | _ => .missing

def readLoop (l : LoopRecord) (name : String) : Value :=
  match name with
  | "index" => .int l.index
  | "index0" => .int l.index0
  | "rindex" => .int l.rindex
  | "rindex0" => .int l.rindex0
  | "first" => .bool l.first
  | "last" => .bool l.last
  | "length" => .int l.length
  | _ => .missing

def readRange (start stop : Int) (name : String) : Value :=
  match name with
  | "start" => .int start
  | "stop" => .int stop
  | "step" => .int 1
  | _ => .missing

def readNamed (v : Value) (name : String) : Except ReadFault Value :=
  match v with
  | .list items => .ok (readNamedElement items name)
  | .tuple items => .ok (readNamedElement items name)
  | .text s => .ok (if name = "size" then .int s.length else .missing)
  | .map entries => .ok (if name = "size" then .int entries.length else .missing)
  | .range start stop => .ok (readRange start stop name)
  | .loop l => .ok (readLoop l name)
  | .object _ _ attributes => readAttribute attributes name
  | _ => .ok .missing

def readPlace (v : Value) (place : Int) : Value :=
  match v with
  | .list items => (elementAt? items place).getD .missing
  | .tuple items => (elementAt? items place).getD .missing
  | .text s => match elementAt? s.toList place with
    | some c => .text (String.singleton c)
    | none => .missing
  | _ => .missing

/-- A key that is no entry of a map may still name one of its parts. -/
def readKey (v key : Value) : Except ReadFault Value :=
  match key with
  | .text name => readNamed v name
  | .int place => .ok (readPlace v place)
  | _ => .ok .missing

/-- The part of a value under a key; `missing` when there is none. -/
def read (host : Host) (v key : Value) : Except ReadFault Value :=
  match v with
  | .map entries =>
    match key.badKeyType? host with
    | some typeName => .error (.badKey typeName)
    | none => match lookup host key entries with
      | some found => .ok found
      | none => readKey v key
  | v => readKey v key

/-! ## Containment -/

/--
Whether `v` contains `w`: text inside text, an element of a list or tuple, a key of a map. Fails
for a map and what can be no key.
-/
def contains? (host : Host) (v w : Value) : Option Bool :=
  match v with
  | .text s => match w with
    | .text t => some (Text.occursIn t.toList s.toList)
    | _ => some false
  | .list items => some (items.any (isSame host · w))
  | .tuple items => some (items.any (isSame host · w))
  | .map entries =>
    match w.badKeyType? host with
    | some _ => none
    | none => some (lookup host w entries).isSome
  | _ => some false

/-! ## Items -/

/-- A list has fewer items than this, and takes fewer bytes. -/
def maxItems : Nat := twoPow 63

/-- The bytes that a list takes for each of its items. -/
def itemBytes : Nat := 8

/-- The elements of a range, if a list can hold them. -/
def rangeItems? (start stop : Int) : Except Overflow (List Value) :=
  let count := rangeLength start stop
  if maxItems ≤ count then .error .tooLong
  else if maxItems ≤ itemBytes * count then .error .tooLarge
  else .ok (rangeItems start stop)

/--
What a loop runs over: nothing for nil and the empty text, the pairs of a map, the elements of a
list, tuple or range and of an object that is a collection, and any other value once.
-/
def items? (host : Host) : Value → Except Overflow (List Value)
  | .nil => .ok []
  | .text s => .ok (if s.isEmpty then [] else [.text s])
  | .map entries => .ok (entries.map fun (key, v) => .list [key, v])
  | .list items => .ok items
  | .tuple items => .ok items
  | .range start stop => rangeItems? start stop
  | .object id className attributes =>
    let v := Value.object id className attributes
    .ok ((host.items? v).getD [v])
  | v => .ok [v]

end Stencil.Value
