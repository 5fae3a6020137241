import Stencil.Error.Kind
import Stencil.Number.Order
import Stencil.Text.Blank

/-!
# Values

What templates compute with. Memory is no part of the model, nor is the time that anything takes.
-/

namespace Stencil

/-! ## Loop records -/

/-- Which loop a record belongs to: one that runs, by the depth of its frame, or one of the host. -/
inductive LoopOwner
  | running (depth : Nat)
  | host (id : Nat)
deriving DecidableEq, Repr

structure LoopRecord where
  owner : LoopOwner
  index0 : Int
  length : Int
deriving DecidableEq, Repr

namespace LoopRecord

def index (l : LoopRecord) : Int := l.index0 + 1

/-- Iterations left, counting this one. -/
def rindex (l : LoopRecord) : Int := l.length - l.index0

/-- Iterations left after this one. -/
def rindex0 (l : LoopRecord) : Int := l.length - l.index0 - 1

def first (l : LoopRecord) : Bool := l.index0 = 0

def last (l : LoopRecord) : Bool := l.index0 = l.length - 1

end LoopRecord

/-! ## Values -/

/-- What reading an attribute of a host object may raise. `own` is a template error. -/
inductive Raised
  | absent
  | own (kind : ErrorKind) (message : String)
  | other (message : String)
deriving DecidableEq, Repr

mutual

/--
What a variable may hold. Maps keep the order in which their keys came; a range leaves out its
`stop`. Every value of another type is an object of the host, with an identity and attributes.
-/
inductive Value
  | missing
  | nil
  | empty
  | blank
  | bool (b : Bool)
  | int (n : Int)
  | float (x : Binary64)
  | text (s : String)
  | list (items : List Value)
  | tuple (items : List Value)
  | map (entries : List (Value × Value))
  | range (start stop : Int)
  | loop (l : LoopRecord)
  | object (id : Nat) (className : String) (attributes : List (String × Attribute))

inductive Attribute
  | holds (v : Value)
  | method
  | raises (r : Raised)

end

instance : Inhabited Value := ⟨.nil⟩

namespace Value

/-- Only nil and false are not. -/
def isTruthy : Value → Bool
  | .nil => false
  | .bool b => b
  | _ => true

def typeName : Value → String
  | .missing => "_Missing"
  | .nil => "NoneType"
  | .empty => "_EmptyValue"
  | .blank => "_EmptyValue"
  | .bool _ => "bool"
  | .int _ => "int"
  | .float _ => "float"
  | .text _ => "str"
  | .list _ => "list"
  | .tuple _ => "tuple"
  | .map _ => "dict"
  | .range .. => "range"
  | .loop _ => "ForLoop"
  | .object _ className _ => className

def isObject : Value → Bool
  | .object .. => true
  | _ => false

/-- The same NaN, the same object, and the keywords, which do not equal themselves. -/
def isSameSingle : Value → Value → Bool
  | .float (.nan p), .float (.nan q) => p = q
  | .empty, .empty => true
  | .blank, .blank => true
  | .object id _ _, .object id' _ _ => id = id'
  | _, _ => false

/-- Booleans count as one and zero. -/
def number? : Value → Option Number
  | .bool b => some (.whole (if b then 1 else 0))
  | .int n => some (.whole n)
  | .float x => some (.float x)
  | _ => none

def elements? : Value → Option (List Value)
  | .list items => some items
  | .tuple items => some items
  | _ => none

def rangeLength (start stop : Int) : Nat := (stop - start).toNat

def rangeItems (start stop : Int) : List Value :=
  (List.range (rangeLength start stop)).map fun (i : Nat) => .int (start + i)

end Value

end Stencil
