import Stencil.Proofs.Render.Lasting

/-!
# What rendering leaves as it was

A rendering ends at the place where it started: in the same template, inside the same inclusions,
with the same frames. Only assignments outside of loop bodies and of repeat-suppressing blocks
write to the top frame.
-/

namespace Stencil

open Markup

/-! ## Places -/

/--
The same template is being rendered inside the same inclusions, and no frame below the top one
differs.
-/
structure Session.SamePlace (s s' : Session) : Prop where
  template : s'.template = s.template
  isPartial : s'.isPartial = s.isPartial
  depth : s'.depth = s.depth
  chain : s'.chain = s.chain
  below : s'.scope.below = s.scope.below

theorem Scope.dropTop_of_below {s : Scope} {next : Frame} {rest : List Frame}
    (h : s.below = next :: rest) : s.dropTop = ⟨next, rest⟩ := by
  rw [Scope.dropTop, h]

namespace Render

open Session

theorem scope_after_inFrame {α : Type} {action : Render α} (h : Along SamePlace action)
    (s : Session) : (after (inFrame action) s).scope = s.scope := by
  rw [after_inFrame]
  exact Scope.dropTop_of_below (h { s with scope := s.scope.push [] }).below

theorem lasting_samePlace : Lasting SamePlace where
  refl s := ⟨rfl, rfl, rfl, rfl, rfl⟩
  trans _ _ _ h h' :=
    ⟨h'.1.trans h.1, h'.2.trans h.2, h'.3.trans h.3, h'.4.trans h.4, h'.5.trans h.5⟩
  write _ _ := ⟨rfl, rfl, rfl, rfl, rfl⟩
  bind _ _ _ := ⟨rfl, rfl, rfl, rfl, rfl⟩
  moveOn _ _ _ := ⟨rfl, rfl, rfl, rfl, rfl⟩
  remember _ _ := ⟨rfl, rfl, rfl, rfl, rfl⟩
  inFrame {action} h s := by
    have hs := h { s with scope := s.scope.push [] }
    have hscope := scope_after_inFrame h s
    rw [after_inFrame] at hscope ⊢
    exact ⟨hs.template, hs.isPartial, hs.depth, hs.chain, congrArg Scope.below hscope⟩
  capture {action} h s := by
    have hs := h { s with output := "" }
    rw [after_capture]
    exact ⟨hs.template, hs.isPartial, hs.depth, hs.chain, hs.below⟩
  insidePartial {name line action} h s := by
    rw [after_insidePartial]
    exact ⟨rfl, rfl, rfl, rfl, (h _).below⟩

theorem samePlace_loadPartial (env : Environment) (name : String) :
    Along SamePlace (loadPartial env name) := by
  refine (readsMore_loadPartial env name).mono ?_
  rintro s _ ⟨_, _, rfl⟩
  exact ⟨rfl, rfl, rfl, rfl, rfl⟩

theorem samePlace_renderWithin (env : Environment) (room : Nat) (nodes : List Node) :
    Along SamePlace (renderWithin env (loadPartial env) room nodes) :=
  lasting_samePlace.renderWithin (samePlace_loadPartial env) room nodes

end Render

end Stencil
