import Stencil.Session

/-! # Rendering inclusions -/

namespace Stencil.Render

open Markup

/-- What an inclusion binds: a value that is rendered once, or values that are rendered in turn. -/
inductive Bound
  | scalar (v : Value)
  | sequence (vs : List Value)

/-- Lists and tuples are sequences; nothing else is. -/
def Bound.ofValue (v : Value) : Bound :=
  match v.elements? with
  | some vs => .sequence vs
  | none => .scalar v

/-- The name under which a partial finds what it is bound to: the last step of its own name. -/
def bindingName (name : String) : String := String.ofList (Text.afterLast '/' name.toList)

/-- The name of the partial. It is text, and not empty. -/
def partialName (env : Environment) (line : Int) (i : Inclusion) : Render String := do
  let v ← evaluate env (some line) i.template
  evaluating env (some line) fun setting =>
    if (v matches .nil) || v.equals setting.host (.text "") then
      .error (setting.fault .missingName (some i.markup))
    else match v with
      | .text name => .ok name
      | v => .error (setting.fault (.nameType v.typeName) (some i.markup))

/-- Without an expression, the variable of the partial's own name is bound. -/
def boundValue (env : Environment) (line : Int) (i : Inclusion) (name : String) : Render Value :=
  match i.bound with
  | some e => evaluate env (some line) e
  | none => do
    match (← get).scope.find name with
    | .missing => return .nil
    | v => return v

/-- Each attribute sees those before it. -/
def bindAttributes (env : Environment) (line : Int) : List (String × Expr) → Render Unit
  | [] => pure ()
  | (key, e) :: rest => do
    let v ← evaluate env (some line) e
    bind key v
    bindAttributes env line rest

/-- Renders a partial for each value in turn, all in one frame. -/
def renderEach (name : String) (body : Render Unit) : List Value → Render Unit
  | [] => pure ()
  | v :: vs => do
    bind name v
    body
    renderEach name body vs

def renderBound (name : String) (body : Render Unit) : Bound → Render Unit
  | .scalar v => renderEach name body [v]
  | .sequence vs => renderEach name body vs

/--
Where inclusions find their partials, and how they render the nodes of one. There is no way to
render any where no further inclusion may nest.
-/
structure Partials where
  find : String → Render Template
  enter : Option (List Node → Render Unit)

def renderInclusion (env : Environment) (partials : Partials) (line : Int) (i : Inclusion) :
    Render Unit := do
  let name ← partialName env line i
  let t ← partials.find name
  let v ← boundValue env line i name
  match partials.enter with
  | none => refuse env name line
  | some enter =>
    insidePartial name line <| inFrame do
      bindAttributes env line i.attributes
      renderBound (bindingName name) (enter t.nodes) (.ofValue v)

end Stencil.Render
