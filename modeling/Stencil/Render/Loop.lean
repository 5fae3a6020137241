import Stencil.Session

/-! # Rendering loops -/

namespace Stencil.Render

open Markup

/-- A limit or an offset. Nil stands for none. -/
def loopArgument (env : Environment) (line : Int) (e : Option Expr) : Render (Option Int) :=
  match e with
  | none => pure none
  | some e => do
    let v ← evaluate env (some line) e
    match v with
    | .nil => return none
    | v => evaluating env (some line) fun setting =>
      (setting.whole (setting.argumentError v) v).map some

def dropFront (offset : Option Int) (items : List Value) : List Value :=
  match offset with
  | some n => items.drop n.toNat
  | none => items

def keepFront (limit : Option Int) (items : List Value) : List Value :=
  match limit with
  | some n => items.take n.toNat
  | none => items

/-- The items of a value after an offset, up to a limit, and turned around at the end. -/
def select (items : List Value) (offset limit : Option Int) (isReversed : Bool) : List Value :=
  let kept := keepFront limit (dropFront offset items)
  if isReversed then kept.reverse else kept

/-- The items that a loop runs over. -/
def loopItems (env : Environment) (line : Int) (head : LoopHead) : Render (List Value) := do
  let v ← evaluate env (some line) head.collection
  match v.items? env.host with
  | .error o => throw (.overflow o)
  | .ok items =>
    let offset ← loopArgument env line head.offset
    let limit ← loopArgument env line head.limit
    return select items offset limit head.isReversed

def advance (owner : LoopOwner) (index0 : Nat) (name : String) (item : Value) : Render Unit := do
  modify fun s => { s with scope := s.scope.advance owner index0 }
  bind name item

/-- Renders a body for each item, the first of which has this index. -/
def iterate (owner : LoopOwner) (name : String) (body : Render Unit) :
    Nat → List Value → Render Unit
  | _, [] => pure ()
  | index0, item :: items => do
    advance owner index0 name item
    body
    iterate owner name body (index0 + 1) items

/-- Renders a body for each item, all in one frame, which also holds the record of the loop. -/
def runLoop (name : String) (items : List Value) (body : Render Unit) : Render Unit :=
  inFrame do
    let owner := LoopOwner.running (← get).scope.depth
    bind "forloop" (.loop ⟨owner, 0, items.length⟩)
    iterate owner name body 0 items

end Stencil.Render
