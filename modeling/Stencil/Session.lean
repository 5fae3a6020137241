import Stencil.Environment
import Stencil.Expr.Evaluation

/-! # Sessions -/

namespace Stencil

/--
What one rendering owns. `template` is the template being rendered, `isPartial` whether an inclusion
brought it in, `depth` how many inclusions it is inside of, and `chain` those that are known by name
and line. `partials` are the partials that were read, `lastChanged` the text of the last repeated
block, `reads` the names that the loader was asked for, and `output` the text so far.
-/
structure Session where
  scope : Scope
  template : Option String
  isPartial : Bool
  depth : Nat
  chain : IncludeChain
  partials : List (String × Template)
  lastChanged : Option String
  reads : List String
  output : String

namespace Session

/-- A session whose root frame holds the globals, overlaid with `bindings`. -/
def start (env : Environment) (bindings : Frame) (template : Option String) : Session where
  scope := Scope.ofBases [env.globals, bindings]
  template := template
  isPartial := false
  depth := 0
  chain := []
  partials := []
  lastChanged := none
  reads := []
  output := ""

def setting (env : Environment) (s : Session) (line : Option Int) : Setting :=
  ⟨s.scope, env.strict, s.template, line, env.host⟩

def view (s : Session) : TagView := ⟨s.scope, s.template, s.isPartial, s.depth⟩

end Session

/-- An action on a session that may fail. What was done before a failure stays done. -/
abbrev Render := EStateM Error Session

namespace Render

/-! ## Steps -/

def write (text : String) : Render Unit := modify fun s => { s with output := s.output ++ text }

/-- Writes what a value adds to the output, if it has a text. -/
def writeValue (env : Environment) (v : Value) : Render Unit :=
  match v.output? env.host with
  | some text => write text
  | none => throw (.overflow .unwritable)

def bind (name : String) (v : Value) : Render Unit :=
  modify fun s => { s with scope := s.scope.bind name v }

/-- The value of something that is evaluated on a line of the current template. -/
def evaluating {α : Type} (env : Environment) (line : Option Int)
    (eval : Setting → Except Error α) : Render α := fun s =>
  match eval (s.setting env line) with
  | .ok a => .ok a s
  | .error e => .error e s

def evaluate (env : Environment) (line : Option Int) (e : Expr) : Render Value :=
  evaluating env line fun setting => e.eval setting

/-! ## Brackets -/

/-- Does something to the session however an action ends. -/
def ensuring {α : Type} (restore : Session → Session) (action : Render α) : Render α := fun s =>
  match action s with
  | .ok a s' => .ok a (restore s')
  | .error e s' => .error e (restore s')

/-- An action in a new frame, which is gone afterwards. -/
def inFrame {α : Type} (action : Render α) : Render α := fun s =>
  ensuring (fun s' => { s' with scope := s'.scope.dropTop }) action
    { s with scope := s.scope.push [] }

/-- The text that an action would write. -/
def capture (action : Render Unit) : Render String := fun s =>
  match action { s with output := "" } with
  | .ok () s' => .ok s'.output { s' with output := s.output }
  | .error e s' => .error e { s' with output := s.output }

/-! ## Partials -/

/-- A template that is read anew. The session remembers that the loader was asked for it. -/
def loadTemplate (env : Environment) (name : String) (isPartial : Bool) : Render Template :=
  fun s =>
  let s := if env.loader.isSome then { s with reads := s.reads ++ [name] } else s
  match env.load name isPartial with
  | .ok t => .ok t s
  | .error e => .error e s

/-- The partial of a name, which is read from the loader at its first use. -/
def loadPartial (env : Environment) (name : String) : Render Template := do
  match (← get).partials.lookup name with
  | some t => return t
  | none =>
    let t ← loadTemplate env name true
    modify fun s => { s with partials := s.partials ++ [(name, t)] }
    return t

/-- Line zero, and a template without a name, leave no mark in the chain. -/
def link (template : Option String) (line : Int) : IncludeChain :=
  match stated? template with
  | some name => if line = 0 then [] else [(name, line)]
  | none => []

/-- An action inside the partial `name`. -/
def insidePartial {α : Type} (name : String) (line : Int) (action : Render α) : Render α := fun s =>
  ensuring
    (fun s' =>
      { s' with
        template := s.template, isPartial := s.isPartial, depth := s.depth, chain := s.chain })
    action
    { s with
      template := some name, isPartial := true, depth := s.depth + 1
      chain := s.chain ++ link s.template line }

/-- One inclusion too many. -/
def refuse {α : Type} (env : Environment) (name : String) (line : Int) : Render α := fun s =>
  .error (.runtime ⟨.depth env.maxDepth name, none, s.template,
    if line = 0 then none else some line, s.chain⟩) s

/-- How many more inclusions may nest. -/
def room (env : Environment) (s : Session) : Nat := (env.maxDepth - s.depth).toNat

/-- An action inside the partial `name`, if one more inclusion may nest. -/
def asPartial {α : Type} (env : Environment) (name : String) (line : Int) (action : Render α) :
    Render α := do
  if room env (← get) = 0 then refuse env name line else insidePartial name line action

end Render

end Stencil
