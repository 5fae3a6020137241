import Stencil.Proofs.Render.Place

/-!
# What rendering writes to the top frame

A rendering ends at the place where it started, and of the top frame it changes no more than what
the assignments of its nodes bind there.
-/

namespace Stencil

open Markup

/-! ## The assignments of nodes -/

mutual

/--
The assignments that a node carries out in the frame in which it is rendered. A loop renders its
body in a frame of its own, but in this one what it renders when there is nothing to run over.
-/
def Node.assignments : Node → List Assignment
  | .assign _ assignment => [assignment]
  | .conditional _ _ branches otherwise =>
    branchAssignments branches ++ nodeAssignments otherwise
  | .loop _ _ _ otherwise => nodeAssignments otherwise
  | _ => []

def nodeAssignments : List Node → List Assignment
  | [] => []
  | node :: nodes => node.assignments ++ nodeAssignments nodes

def branchAssignments : List (Chain × List Node) → List Assignment
  | [] => []
  | (_, body) :: rest => nodeAssignments body ++ branchAssignments rest

end

/--
Some of the assignments, each at most once and in this order, take one frame to the other. What
they bind is the value of their source in some session.
-/
inductive Assigned (env : Environment) : List Assignment → Frame → Frame → Prop
  | done (frame : Frame) : Assigned env [] frame frame
  | skip {first : Assignment} {rest : List Assignment} {frame frame' : Frame} :
    Assigned env rest frame frame' → Assigned env (first :: rest) frame frame'
  | carryOut {first : Assignment} {rest : List Assignment} {frame frame' : Frame} {s : Session}
    {line : Option Int} {v : Value} : first.source.eval (s.setting env line) = .ok v →
    Assigned env rest (frame.bind first.target v) frame' →
    Assigned env (first :: rest) frame frame'

namespace Assigned

variable {env : Environment} {first rest : List Assignment} {frame frame' frame'' : Frame}

theorem refl : Assigned env rest frame frame := by
  induction rest with
  | nil => exact .done frame
  | cons assignment rest ih => exact .skip ih

theorem append (h : Assigned env first frame frame') (h' : Assigned env rest frame' frame'') :
    Assigned env (first ++ rest) frame frame'' := by
  induction h with
  | done => exact h'
  | skip _ ih => exact .skip (ih h')
  | carryOut heval _ ih => exact .carryOut heval (ih h')

theorem append_left (h : Assigned env rest frame frame') :
    Assigned env (first ++ rest) frame frame' := append refl h

theorem append_right (h : Assigned env first frame frame') :
    Assigned env (first ++ rest) frame frame' := append h refl

theorem eq_of_nil (h : Assigned env [] frame frame') : frame' = frame := by
  cases h with
  | done => rfl

end Assigned

namespace Render

open Session

/-! ## Actions that keep all frames -/

def SameScope (s s' : Session) : Prop := s'.scope = s.scope

theorem sameScope_refl (s : Session) : SameScope s s := rfl

theorem sameScope_trans ⦃s s' s'' : Session⦄ (h : SameScope s s') (h' : SameScope s' s'') :
    SameScope s s'' := h'.trans h

section

variable {α : Type} {env : Environment}

theorem sameScope_loadPartial (name : String) : Along SameScope (loadPartial env name) := by
  refine (readsMore_loadPartial env name).mono ?_
  rintro s _ ⟨_, _, rfl⟩
  rfl

theorem sameScope_writeChanged (text : String) : Along SameScope (writeChanged text) := by
  refine (still_get.along sameScope_refl).andThen sameScope_trans fun s => ?_
  split
  · exact (still_pure _).along sameScope_refl
  · exact Along.andThen sameScope_trans (fun _ => rfl) fun _ _ => rfl

theorem sameScope_inFrame {action : Render α} (h : Along SamePlace action) :
    Along SameScope (inFrame action) := scope_after_inFrame h

theorem sameScope_renderInclusion {partials : Partials} (hp : partials.Keep SamePlace)
    (hfind : ∀ name, Along SameScope (partials.find name)) (line : Int) (i : Inclusion) :
    Along SameScope (renderInclusion env partials line i) := by
  refine ((still_partialName env _ _).along sameScope_refl).andThen sameScope_trans fun name => ?_
  refine (hfind name).andThen sameScope_trans fun t => ?_
  refine ((still_boundValue env _ _ _).along sameScope_refl).andThen sameScope_trans fun v => ?_
  split
  · exact (still_refuse env _ _).along sameScope_refl
  · next enter heq =>
    intro s
    have hbody : Along SamePlace (do
        bindAttributes env line i.attributes
        renderBound (bindingName name) (enter t.nodes) (.ofValue v)) :=
      lasting_samePlace.andThen (lasting_samePlace.bindAttributes _ _) fun _ =>
        lasting_samePlace.renderBound (hp.enter enter heq t.nodes) _
    unfold SameScope
    rw [after_insidePartial]
    exact sameScope_inFrame hbody _

end

/-! ## Assignments along a rendering -/

/-- An action that writes no more to the top frame than these assignments. -/
def Writes {α : Type} (env : Environment) (assignments : List Assignment) (action : Render α) :
    Prop := ∀ s, Assigned env assignments s.scope.top (after action s).scope.top

section

variable {α β : Type} {env : Environment} {first rest : List Assignment}

theorem Writes.andThen {x : Render α} {f : α → Render β} (hx : Writes env first x)
    (hf : ∀ a, Writes env rest (f a)) : Writes env (first ++ rest) (x >>= f) := by
  intro s
  have hs := hx s
  rw [after_bind]
  cases h : x s with
  | ok a s' =>
    rw [after_of_ok h] at hs
    exact hs.append (hf a s')
  | error e s' =>
    rw [after_of_error h] at hs
    exact hs.append_right

theorem writes_of_sameScope {action : Render α} (h : Along SameScope action) :
    Writes env rest action := by
  intro s
  rw [show (after action s).scope = s.scope from h s]
  exact .refl

theorem writes_of_still {action : Render α} (h : Still action) : Writes env rest action :=
  writes_of_sameScope (h.along sameScope_refl)

theorem Writes.after_still {x : Render α} {f : α → Render β} (hx : Still x)
    (hf : ∀ a, Writes env rest (f a)) : Writes env rest (x >>= f) := by
  have hnone : Writes env [] x := writes_of_still hx
  exact hnone.andThen hf

theorem writes_assign (line : Option Int) (assignment : Assignment) :
    Writes env [assignment] (do
      let v ← evaluate env line assignment.source
      bind assignment.target v) := by
  intro s
  rw [after_bind]
  cases h : assignment.source.eval (s.setting env line) with
  | ok v =>
    rw [evaluate_of_ok env h]
    exact .carryOut h (.done _)
  | error e =>
    rw [evaluate_of_error env h]
    exact .refl

end

mutual

theorem writes_renderNode {env : Environment} {partials : Partials} (hp : partials.Keep SamePlace)
    (hfind : ∀ name, Along SameScope (partials.find name)) (node : Node) :
    Writes env node.assignments (renderNode env partials node) := by
  have hplace : ∀ nodes, Along SamePlace (renderNodes env partials nodes) :=
    lasting_samePlace.renderNodes hp
  cases node with
  | text line value => exact writes_of_sameScope fun _ => rfl
  | output line markup e =>
    exact .after_still (still_evaluate env _ _) fun v =>
      writes_of_sameScope (.writeValue env sameScope_refl (fun _ _ => rfl) v)
  | raw line name body => exact writes_of_sameScope fun _ => rfl
  | comment line name body => exact writes_of_still (still_pure _)
  | assign line assignment => exact writes_assign _ _
  | ifChanged line body =>
    refine writes_of_sameScope (Along.andThen sameScope_trans (fun s => ?_) sameScope_writeChanged)
    unfold SameScope
    rw [after_capture]
    exact sameScope_inFrame (hplace body) _
  | conditional line isNegated branches otherwise =>
    refine (writes_renderBranches hp hfind line isNegated branches).andThen fun rendered => ?_
    split
    · exact writes_of_still (still_pure _)
    · exact writes_renderNodes hp hfind otherwise
  | loop line head body otherwise =>
    refine .after_still (still_loopItems env _ _) fun items => ?_
    split
    · exact writes_renderNodes hp hfind otherwise
    · refine writes_of_sameScope (sameScope_inFrame ?_)
      refine lasting_samePlace.andThen (lasting_samePlace.still still_get) fun s => ?_
      refine lasting_samePlace.andThen (lasting_samePlace.bind _ _) fun _ => ?_
      exact lasting_samePlace.iterate (hplace body) _ _
  | inclusion line i => exact writes_of_sameScope (sameScope_renderInclusion hp hfind _ _)
  | inline line tag markup =>
    exact .after_still still_get fun s => writes_of_sameScope fun _ => rfl

theorem writes_renderNodes {env : Environment} {partials : Partials} (hp : partials.Keep SamePlace)
    (hfind : ∀ name, Along SameScope (partials.find name)) (nodes : List Node) :
    Writes env (nodeAssignments nodes) (renderNodes env partials nodes) := by
  cases nodes with
  | nil => exact writes_of_still (still_pure _)
  | cons node nodes =>
    exact (writes_renderNode hp hfind node).andThen fun _ => writes_renderNodes hp hfind nodes

theorem writes_renderBranches {env : Environment} {partials : Partials}
    (hp : partials.Keep SamePlace) (hfind : ∀ name, Along SameScope (partials.find name))
    (line : Nat) (isNegated : Bool) (branches : List (Chain × List Node)) :
    Writes env (branchAssignments branches)
      (renderBranches env partials line isNegated branches) := by
  cases branches with
  | nil => exact writes_of_still (still_pure _)
  | cons branch rest =>
    obtain ⟨condition, body⟩ := branch
    refine .after_still (still_evaluating env _ _) fun holds => ?_
    split
    · exact (writes_renderNodes hp hfind body).andThen fun _ => writes_of_still (still_pure _)
    · exact fun s => (writes_renderBranches hp hfind line false rest s).append_left

end

theorem writes_renderWithin (env : Environment) (room : Nat) (ns : List Node) :
    Writes env (nodeAssignments ns) (renderWithin env (loadPartial env) room ns) := by
  cases room with
  | zero => exact writes_renderNodes ⟨samePlace_loadPartial env, by simp⟩ sameScope_loadPartial ns
  | succ room =>
    refine writes_renderNodes ⟨samePlace_loadPartial env, ?_⟩ sameScope_loadPartial ns
    rintro enter ⟨⟩
    exact samePlace_renderWithin env room

theorem writes_nodes (env : Environment) (ns : List Node) :
    Writes env (nodeAssignments ns) (nodes env ns) :=
  .after_still still_get fun s => writes_renderWithin env (room env s) ns

/-! ## Renderings end where they started -/

/--
However a rendering ends, it ends at the place where it started, in as many frames. The top frame
differs at most by assignments of the nodes, and an inclusion does not change it.
-/
theorem nodes_end_where_they_start (env : Environment) (ns : List Node) (s : Session) :
    SamePlace s (after (nodes env ns) s) ∧
      (after (nodes env ns) s).scope.depth = s.scope.depth ∧
      Assigned env (nodeAssignments ns) s.scope.top (after (nodes env ns) s).scope.top ∧
      ∀ line i, (after (nodes env [.inclusion line i]) s).scope.top = s.scope.top := by
  have hplace : SamePlace s (after (nodes env ns) s) :=
    lasting_samePlace.nodes (samePlace_loadPartial env) ns s
  refine ⟨hplace, ?_, writes_nodes env ns s, ?_⟩
  · simp only [Scope.depth, hplace.below]
  · intro line i
    exact (writes_nodes env [.inclusion line i] s).eq_of_nil

end Render

end Stencil
