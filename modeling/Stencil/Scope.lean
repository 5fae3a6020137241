import Stencil.Value.Basic

/-! # Scopes -/

namespace Stencil

/-! ## Frames -/

/-- Names with their values, in the order in which they were first bound. -/
abbrev Frame := List (String × Value)

namespace Frame

def bind (frame : Frame) (name : String) (v : Value) : Frame :=
  match frame with
  | [] => [(name, v)]
  | (name', v') :: rest =>
    if name' = name then (name, v) :: rest else (name', v') :: bind rest name v

/-- The bindings of `later` win. -/
def merge (frame later : Frame) : Frame :=
  later.foldl (fun f (name, v) => Frame.bind f name v) frame

def names (frame : Frame) : List String := frame.map (·.1)

end Frame

/-! ## Scopes -/

/-- A stack of frames with the innermost on top. There is always one. -/
structure Scope where
  top : Frame
  below : List Frame

namespace Scope

/-- A scope with one frame, in which later bases win over earlier ones. -/
def ofBases (bases : List Frame) : Scope := ⟨bases.foldl Frame.merge [], []⟩

def frames (s : Scope) : List Frame := s.top :: s.below

def depth (s : Scope) : Nat := s.below.length + 1

def push (s : Scope) (frame : Frame) : Scope := ⟨frame, s.top :: s.below⟩

/-- The top frame and the scope without it; the root frame stays. -/
def pop? (s : Scope) : Option (Frame × Scope) :=
  match s.below with
  | [] => none
  | next :: rest => some (s.top, ⟨next, rest⟩)

/-- The scope without its top frame. -/
def dropTop (s : Scope) : Scope :=
  match s.below with
  | [] => s
  | next :: rest => ⟨next, rest⟩

def find? (s : Scope) (name : String) : Option Value :=
  s.frames.findSome? (·.lookup name)

/-- What a name stands for; `missing` when nothing binds it. -/
def find (s : Scope) (name : String) : Value := (s.find? name).getD .missing

def get? (s : Scope) (name : String) : Option Value :=
  match s.find? name with
  | some .missing => none
  | found => found

def binds (s : Scope) (name : String) : Bool := (s.find? name).isSome

def bind (s : Scope) (name : String) (v : Value) : Scope := { s with top := s.top.bind name v }

def names (s : Scope) : List String := (s.frames.flatMap Frame.names).eraseDups

/-- Every record of one loop in the top frame moves to `index0`. -/
def advance (s : Scope) (owner : LoopOwner) (index0 : Int) : Scope :=
  { s with top := s.top.map fun (name, v) => match v with
      | .loop l => (name, .loop (if l.owner = owner then { l with index0 := index0 } else l))
      | v => (name, v) }

/-- The message for an attempt to pop the root frame. -/
def rootFrameMessage : String := "Cannot pop the root scope frame"

end Scope

end Stencil
