import Mathlib.Data.List.Forall2
import Stencil.Proofs.Render.History
import Stencil.Proofs.Render.Writes

/-!
# Inclusions for each of many values

An inclusion for many values renders its partial in one frame, one value after the other. Where the
partial assigns nothing to that frame, as many inclusions for one value each do the same.
-/

namespace Stencil

open Markup

namespace Expr

section

variable {setting : Setting} {markup markup' : String}

end

end Expr

namespace Render

open Session

/-! ## Attributes -/

section

variable {env : Environment} {line : Int} {attributes : List (String × Expr)} {s s' s₁ : Session}

theorem setting_congr (hscope : s'.scope = s.scope) (htemplate : s'.template = s.template)
    (line : Option Int) : s'.setting env line = s.setting env line := by
  unfold setting
  rw [hscope, htemplate]

end

/-! ## Inside of a partial -/

/-- What is left of a partial that was entered in the session `s`. -/
def left (s s' : Session) : Session :=
  { s' with
    template := s.template, isPartial := s.isPartial, depth := s.depth, chain := s.chain
    scope := s'.scope.dropTop }

/-- A partial is rendered for each value in turn, all in one frame. -/
def renderFor (env : Environment) (line : Int) (attributes : List (String × Expr)) (name : String)
    (body : Render Unit) (vs : List Value) : Render Unit :=
  insidePartial name line <| inFrame do
    bindAttributes env line attributes
    renderEach (bindingName name) body vs

section

variable {env : Environment} {line : Int} {attributes : List (String × Expr)} {name : String}
  {body : Render Unit} {s s' s₁ : Session} {v w : Value} {vs : List Value} {error : Error}

/-- What was read stays. -/
def Grows (s s' : Session) : Prop := s.partials <+: s'.partials

theorem lasting_grows : Lasting Grows where
  refl s := List.prefix_rfl
  trans _ _ _ h h' := List.IsPrefix.trans h h'
  write _ _ := List.prefix_rfl
  bind _ _ _ := List.prefix_rfl
  moveOn _ _ _ := List.prefix_rfl
  remember _ _ := List.prefix_rfl
  inFrame h s := by
    have hs := h { s with scope := s.scope.push [] }
    rw [after_inFrame]
    exact hs
  capture h s := by
    have hs := h { s with output := "" }
    rw [after_capture]
    exact hs
  insidePartial {name line action} h s := by
    rw [after_insidePartial]
    exact h { s with
      template := some name, isPartial := true, depth := s.depth + 1
      chain := s.chain ++ link s.template line }

theorem Lasting.renderFor {R : Session → Session → Prop} (h : Lasting R) (hb : Along R body) :
    Along R (renderFor env line attributes name body vs) :=
  h.insidePartial (h.inFrame (h.andThen (h.bindAttributes _ _) fun _ => h.renderEach hb _))

theorem sameScope_renderFor (hplace : Along SamePlace body) :
    Along SameScope (renderFor env line attributes name body vs) := by
  intro s
  have hinside : Along SamePlace (do
      bindAttributes env line attributes
      renderEach (bindingName name) body vs) :=
    lasting_samePlace.andThen (lasting_samePlace.bindAttributes _ _) fun _ =>
      lasting_samePlace.renderEach hplace _
  unfold SameScope renderFor
  rw [after_insidePartial]
  exact sameScope_inFrame hinside _

/-- A partial that assigns nothing in the frame in which it is rendered. -/
structure AssignsNothing (body : Render Unit) : Prop where
  place : Along SamePlace body
  top : ∀ s, (after body s).scope.top = s.scope.top
  grows : Along Grows body

/-- The session evaluates in this setting, and has the partial. -/
structure Ready (env : Environment) (line : Int) (setting : Setting) (name : String) (t : Template)
    (s : Session) : Prop where
  setting : s.setting env (some line) = setting
  known : s.partials.lookup name = some t

theorem Ready.renderFor {setting : Setting} {other : String} {t : Template}
    (h : Ready env line setting other t s) (hbody : AssignsNothing body)
    (hs : renderFor env line attributes name body vs s = .ok () s') :
    Ready env line setting other t s' := by
  have hplace : SamePlace s s' := after_of_ok hs ▸ lasting_samePlace.renderFor hbody.place s
  have hscope : SameScope s s' := after_of_ok hs ▸ sameScope_renderFor hbody.place s
  have hgrows : Grows s s' := after_of_ok hs ▸ lasting_grows.renderFor hbody.grows s
  refine ⟨?_, lookup_of_prefix hgrows h.known⟩
  rw [setting_congr hscope hplace.template, h.setting]

end

/-! ## Tags -/

/-- In this setting, the inclusion is one of the partial of this name for a value. -/
structure IncludesFor (setting : Setting) (name : String) (attributes : List (String × Expr))
    (i : Inclusion) (v : Value) : Prop where
  name : i.template.eval setting = .ok (.text name)
  value : ∃ e, i.bound = some e ∧ e.eval setting = .ok v
  attributes : i.attributes = attributes

section

variable {env : Environment} {line : Nat} {attributes : List (String × Expr)} {name : String}
  {i : Inclusion} {v : Value} {s s' : Session} {t : Template} {enter : List Node → Render Unit}

theorem partialName_of_includes (hname : name ≠ "")
    (h : IncludesFor (s.setting env (some (line : Int))) name attributes i v) :
    partialName env line i s = .ok name s := by
  have hne : ¬ (Value.text name).equals env.host (.text "") := by
    simp [Value.equals, Value.isObject, hname]
  rw [partialName_eq, bind_of_ok (evaluate_of_ok env h.name), evaluating_eq_ok]
  exact ⟨nameIn_text hne, rfl⟩

theorem needs_of_load (hname : name ≠ "")
    (h : IncludesFor (s.setting env (some (line : Int))) name attributes i v)
    (hload : loadPartial env name s = .ok t s') : needs env line i s = .ok (name, t, v) s' := by
  have hsetting := setting_of_loadPartial hload (some (line : Int))
  have hvalue : boundValue env line i name s' = .ok v s' := by
    obtain ⟨e, hbound, heval⟩ := h.value
    unfold boundValue
    rw [hbound]
    exact evaluate_of_ok env (hsetting ▸ heval)
  calc needs env line i s
    _ = _ := bind_of_ok (partialName_of_includes hname h)
    _ = _ := bind_of_ok hload
    _ = .ok (name, t, v) s' := bind_of_ok hvalue

end

/-! ## Whole tags -/

end Render

end Stencil
