import Stencil.Condition.Evaluation
import Stencil.Render.Inclusion
import Stencil.Render.Loop

/-! # Rendering -/

namespace Stencil

namespace Render

/-- Writes a text unless it is the one that came before it. -/
def writeChanged (text : String) : Render Unit := do
  if (← get).lastChanged = some text then pure ()
  else
    modify fun s => { s with lastChanged := some text }
    write text

mutual

def renderNode (env : Environment) (partials : Partials) : Node → Render Unit
  | .text _ value => write value
  | .output line _ e => do
    let v ← evaluate env (some line) e
    writeValue env v
  | .raw _ _ body => write body
  | .comment .. => pure ()
  | .assign line assignment => do
    let v ← evaluate env (some line) assignment.source
    bind assignment.target v
  | .ifChanged _ body => do
    let text ← capture (inFrame (renderNodes env partials body))
    writeChanged text
  | .conditional line isNegated branches otherwise => do
    if ← renderBranches env partials line isNegated branches then pure ()
    else renderNodes env partials otherwise
  | .loop line head body otherwise => do
    let items ← loopItems env line head
    if items.isEmpty then renderNodes env partials otherwise
    else runLoop head.item items (renderNodes env partials body)
  | .inclusion line inclusion => renderInclusion env partials line inclusion
  | .inline _ tag markup => do write (tag.write markup (← get).view)

def renderNodes (env : Environment) (partials : Partials) :
    List Node → Render Unit
  | [] => pure ()
  | node :: nodes => do
    renderNode env partials node
    renderNodes env partials nodes

/-- Renders the first branch whose condition holds, or fails where the first one is negated. -/
def renderBranches (env : Environment) (partials : Partials) (line : Nat)
    (isNegated : Bool) : List (Chain × List Node) → Render Bool
  | [] => pure false
  | (condition, body) :: rest => do
    let holds ← evaluating env (some (line : Int)) condition.eval
    if holds != isNegated then
      renderNodes env partials body
      return true
    else renderBranches env partials line false rest

end

/-- Renders nodes where this many further inclusions may nest. -/
def renderWithin (env : Environment) (find : String → Render Template) :
    Nat → List Node → Render Unit
  | 0 => renderNodes env ⟨find, none⟩
  | room + 1 => renderNodes env ⟨find, some (renderWithin env find room)⟩

/-- Renders nodes in a session, which reads each partial once. -/
def nodes (env : Environment) (nodes : List Node) : Render Unit := do
  renderWithin env (loadPartial env) (room env (← get)) nodes

end Render

/-! ## Whole templates -/

/-- The text of a template, rendered in a session of its own. -/
def Template.render (env : Environment) (t : Template) (bindings : Frame) : Except Error String :=
  match Render.nodes env t.nodes (Session.start env bindings t.name) with
  | .ok () s => .ok s.output
  | .error e _ => .error e

def Environment.render (env : Environment) (name : String) (bindings : Frame) :
    Except Error String := do
  let t ← env.getTemplate name
  t.render env bindings

end Stencil
