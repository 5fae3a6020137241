import Stencil.Proofs.Render.Moment

/-!
# Partials inside of partials

Partials that include each other one by one, down to some inner nodes. What they render is what the
inner nodes render, if there is room for all of them.
-/

namespace Stencil

open Markup

theorem Scope.find_bind_push (s : Scope) (name : String) (v : Value) (name' : String) :
    ((s.push []).bind name v).find name' = if name' = name then v else s.find name' := by
  unfold Scope.find Scope.find? Scope.frames Scope.bind Scope.push
  rw [List.findSome?_cons]
  by_cases h : name' = name
  · simp [Frame.bind, h]
  · have hne : (name' == name) = false := beq_false_of_ne h
    simp [Frame.bind, List.lookup_cons, hne, h]

namespace Render

/-- The text that an action wrote, or the error that ended it. -/
def result (action : Render Unit) (s : Session) : Except Error String :=
  match action s with
  | .ok () s' => .ok s'.output
  | .error e _ => .error e

def tooDeep (env : Environment) (name : String) (line : Int) (s : Session) : Error :=
  .runtime ⟨.depth env.maxDepth name, none, s.template, if line = 0 then none else some line,
    s.chain⟩

/-! ## Results of actions -/

section

variable {α β : Type} {x : Render Unit} {s s' : Session}

theorem bind_of_ok {y : Render α} {f : α → Render β} {a : α} (h : y s = .ok a s') :
    (y >>= f) s = f a s' := by
  show EStateM.bind y f s = _
  unfold EStateM.bind
  rw [h]

theorem bind_of_error {y : Render α} {f : α → Render β} {e : Error} (h : y s = .error e s') :
    (y >>= f) s = .error e s' := by
  show EStateM.bind y f s = _
  unfold EStateM.bind
  rw [h]

theorem bind_congr {y z : Render α} {f g : α → Render β} {s₁ : Session} (hyz : y s = z s₁)
    (hfg : ∀ a s', z s₁ = .ok a s' → f a s' = g a s') : (y >>= f) s = (z >>= g) s₁ := by
  cases h : z s₁ with
  | ok a s' => rw [bind_of_ok (hyz.trans h), bind_of_ok h, hfg a s' h]
  | error e s' => rw [bind_of_error (hyz.trans h), bind_of_error h]

theorem result_andThen {y : Render α} {f : α → Render Unit} {a : α} (h : y s = .ok a s') :
    result (y >>= f) s = result (f a) s' := by
  unfold result
  rw [bind_of_ok h]

theorem result_ensuring {restore : Session → Session} (h : ∀ s, (restore s).output = s.output) :
    result (ensuring restore x) s = result x s := by
  unfold result ensuring
  cases x s with
  | ok a s' => exact congrArg Except.ok (h s')
  | error e s' => rfl

theorem result_inFrame :
    result (inFrame x) s = result x { s with scope := s.scope.push [] } :=
  result_ensuring fun _ => rfl

theorem result_insidePartial {name : String} {line : Int} :
    result (insidePartial name line x) s =
      result x { s with
        template := some name, isPartial := true, depth := s.depth + 1
        chain := s.chain ++ link s.template line } := result_ensuring fun _ => rfl

end

/-! ## Partials that were read before -/

def Current (env : Environment) (s : Session) : Prop :=
  ∀ name t, s.partials.lookup name = some t → env.load name true = .ok t

section

variable {env : Environment} {name : String} {t : Template} {s : Session}

theorem loadPartial_of_known (h : s.partials.lookup name = some t) :
    loadPartial env name s = .ok t s := by
  unfold loadPartial
  rw [bind_of_ok (show (get : Render Session) s = .ok s s from rfl), h]
  rfl

theorem loadPartial_of_unknown (h : s.partials.lookup name = none)
    (hload : env.load name true = .ok t) :
    ∃ s', loadPartial env name s = .ok t s' ∧ s'.partials = s.partials ++ [(name, t)] := by
  obtain ⟨s', hread, hpartials⟩ :
      ∃ s', loadTemplate env name true s = .ok t s' ∧ s'.partials = s.partials := by
    unfold loadTemplate
    simp only [hload]
    refine ⟨_, rfl, ?_⟩
    split <;> rfl
  refine ⟨{ s' with partials := s'.partials ++ [(name, t)] }, ?_, by rw [← hpartials]⟩
  unfold loadPartial
  rw [bind_of_ok (show (get : Render Session) s = .ok s s from rfl), h]
  exact bind_of_ok hread

/-- The session remembers that the loader was asked, if there is one. -/
def asked (env : Environment) (name : String) (s : Session) : Session :=
  if env.loader.isSome then { s with reads := s.reads ++ [name] } else s

theorem asked_partials (env : Environment) (name : String) (s : Session) :
    (asked env name s).partials = s.partials := by
  unfold asked
  split <;> rfl

theorem loadTemplate_of_ok {isPartial : Bool} (hload : env.load name isPartial = .ok t) :
    loadTemplate env name isPartial s = .ok t (asked env name s) := by
  unfold loadTemplate
  rw [hload]
  rfl

theorem loadTemplate_of_error {isPartial : Bool} {e : Error}
    (hload : env.load name isPartial = .error e) :
    loadTemplate env name isPartial s = .error e (asked env name s) := by
  unfold loadTemplate
  rw [hload]
  rfl

theorem loadPartial_of_found (h : s.partials.lookup name = none)
    (hload : env.load name true = .ok t) :
    loadPartial env name s =
      .ok t { asked env name s with partials := s.partials ++ [(name, t)] } := by
  unfold loadPartial
  rw [bind_of_ok (show (get : Render Session) s = .ok s s from rfl), h]
  refine (bind_of_ok (loadTemplate_of_ok hload)).trans ?_
  rw [← asked_partials env name s]
  rfl

theorem loadPartial_of_failed {e : Error} (h : s.partials.lookup name = none)
    (hload : env.load name true = .error e) :
    loadPartial env name s = .error e (asked env name s) := by
  unfold loadPartial
  rw [bind_of_ok (show (get : Render Session) s = .ok s s from rfl), h]
  exact bind_of_error (loadTemplate_of_error hload)

theorem loadPartial_of_current (hs : Current env s) (hload : env.load name true = .ok t) :
    ∃ s', loadPartial env name s = .ok t s' ∧ Current env s' := by
  cases hfound : s.partials.lookup name with
  | some t' =>
    have ht : t' = t := Except.ok.inj ((hs name t' hfound).symm.trans hload)
    exact ⟨s, ht ▸ loadPartial_of_known hfound, hs⟩
  | none =>
    obtain ⟨s', hread, hpartials⟩ := loadPartial_of_unknown hfound hload
    refine ⟨s', hread, fun other t' h => ?_⟩
    rw [hpartials, List.lookup_append] at h
    cases hother : s.partials.lookup other with
    | some t'' =>
      rw [hother] at h
      exact hs other t' (hother.trans h)
    | none =>
      rw [hother] at h
      have hname : other = name := by
        by_contra hne
        simp [List.lookup_cons, beq_false_of_ne hne] at h
      subst hname
      have ht : t = t' := by simpa [List.lookup_cons] using h
      exact ht ▸ hload

end

/-! ## One partial -/

/-- An inclusion of a partial by its name and with nothing else. -/
def plainInclusion (name markup : String) : Inclusion := ⟨.literal (.text name), none, [], markup⟩

section

variable {env : Environment} {name markup : String} {t : Template} {s : Session} {line : Int}

theorem partialName_plain (hname : name ≠ "") :
    partialName env line (plainInclusion name markup) s = .ok name s := by
  have hv : evaluate env (some line) (.literal (.text name)) s = .ok (.text name) s :=
    evaluate_of_ok env rfl
  unfold partialName plainInclusion
  rw [bind_of_ok hv]
  simp [evaluating, Value.equals, Value.isObject, hname]

theorem readsMore_needs {i : Inclusion} : Along ReadsMore (needs env line i) := by
  refine (still_partialName env _ _).readsMore.andThen readsMore_trans fun name => ?_
  refine (readsMore_loadPartial env name).andThen readsMore_trans fun t => ?_
  refine (still_boundValue env _ _ _).readsMore.andThen readsMore_trans fun v => ?_
  exact (still_pure _).readsMore

theorem boundValue_plain (hscalar : (s.scope.find name).elements? = none) :
    ∃ v, boundValue env line (plainInclusion name markup) name s = .ok v s ∧
      v.elements? = none := by
  unfold boundValue plainInclusion
  simp only
  rw [bind_of_ok (show (get : Render Session) s = .ok s s from rfl)]
  generalize s.scope.find name = v at hscalar ⊢
  cases v with
  | missing => exact ⟨.nil, rfl, rfl⟩
  | _ => exact ⟨_, rfl, hscalar⟩

theorem needs_plain (line : Int) (markup : String) (hname : name ≠ "")
    (hload : env.load name true = .ok t) (hs : Current env s)
    (hscalar : (s.scope.find name).elements? = none) :
    ∃ v s', needs env line (plainInclusion name markup) s = .ok (name, t, v) s' ∧
      v.elements? = none ∧ ReadsMore s s' ∧ Current env s' := by
  obtain ⟨s', hread, hs'⟩ := loadPartial_of_current hs hload
  have hreads : ReadsMore s s' := after_of_ok hread ▸ readsMore_loadPartial env name s
  have hscope : s'.scope = s.scope := by
    obtain ⟨_, _, rfl⟩ := hreads
    rfl
  obtain ⟨v, hv, hvscalar⟩ : ∃ v, boundValue env line (plainInclusion name markup) name s' =
      .ok v s' ∧ v.elements? = none := boundValue_plain (hscope ▸ hscalar)
  refine ⟨v, s', ?_, hvscalar, hreads, hs'⟩
  calc needs env line (plainInclusion name markup) s
    _ = _ := bind_of_ok (partialName_plain hname)
    _ = _ := bind_of_ok hread
    _ = .ok (name, t, v) s' := bind_of_ok hv

theorem result_enterOrRefuse {enter : List Node → Render Unit} {v : Value}
    (hv : v.elements? = none) :
    result (enterOrRefuse env (some enter) line (plainInclusion name markup) (name, t, v)) s =
      result (enter t.nodes)
        { entered name line s with scope := (s.scope.push []).bind (bindingName name) v } := by
  have hbound : renderBound (bindingName name) (enter t.nodes) (.ofValue v) =
      (bind (bindingName name) v >>= fun _ => enter t.nodes) := by
    have hpure : (enter t.nodes >>= fun _ => pure ()) = enter t.nodes := bind_pure_unit
    simp only [renderBound_eq, Bound.ofValue, hv, Bound.values, renderEach, hpure]
  have hbody : result (enterOrRefuse env (some enter) line (plainInclusion name markup)
      (name, t, v)) s = result (renderBound (bindingName name) (enter t.nodes) (.ofValue v))
        (entered name line s) := by
    unfold enterOrRefuse
    exact result_insidePartial.trans result_inFrame
  rw [hbody, hbound]
  rfl

end

/-! ## Partials down to some nodes -/

/-- Nodes that include the partials of these names one inside the other, the last one `inner`. -/
inductive Nested (env : Environment) (inner : List Node) : List String → List Node → Prop
  | inner : Nested env inner [] inner
  | outer {name : String} {names : List String} {t : Template} {line : Nat} {markup : String} :
    name ≠ "" → env.load name true = .ok t → Nested env inner names t.nodes →
    Nested env inner (name :: names) [.inclusion line (plainInclusion name markup)]

section

variable {env : Environment} {inner ns : List Node} {names : List String}

theorem result_singleton {partials : Partials} (node : Node) (s : Session) :
    result (renderNodes env partials [node]) s = result (renderNode env partials node) s := by
  have h : (renderNode env partials node >>= fun _ => pure ()) = renderNode env partials node :=
    bind_pure_unit
  rw [← h]
  rfl

/-- No name stands for a list, for the elements of which a partial would be rendered in turn. -/
def Scalar (names : List String) (s : Session) : Prop :=
  ∀ name ∈ names, (s.scope.find name).elements? = none

section

variable {name markup : String} {t : Template} {line : Nat} {s : Session}

theorem result_plain {enter : Option (List Node → Render Unit)} (hname : name ≠ "")
    (hload : env.load name true = .ok t) (hs : Current env s)
    (hscalar : (s.scope.find name).elements? = none) :
    ∃ v s', v.elements? = none ∧ ReadsMore s s' ∧ Current env s' ∧
      result (renderNodes env ⟨loadPartial env, enter⟩
        [.inclusion line (plainInclusion name markup)]) s =
      result (enterOrRefuse env enter line (plainInclusion name markup) (name, t, v)) s' := by
  obtain ⟨v, s', hneeds, hv, hreads, hs'⟩ :=
    needs_plain line markup hname hload hs hscalar
  refine ⟨v, s', hv, hreads, hs', ?_⟩
  rw [result_singleton, renderNode, renderInclusion_eq rfl]
  exact result_andThen hneeds

/-- In the partial, names stand for what they stood for, or for the value that was bound. -/
theorem result_of_enter (enter : List Node → Render Unit) (line : Nat) (markup : String)
    (hname : name ≠ "") (hload : env.load name true = .ok t) (hs : Current env s)
    (hscalar : Scalar (name :: names) s) :
    ∃ s', s'.output = s.output ∧ s'.depth = s.depth + 1 ∧ Current env s' ∧ Scalar names s' ∧
      result (renderNodes env ⟨loadPartial env, some enter⟩
        [.inclusion line (plainInclusion name markup)]) s = result (enter t.nodes) s' := by
  obtain ⟨v, s', hv, ⟨reads, partials, rfl⟩, hs', hresult⟩ :=
    result_plain hname hload hs (hscalar name List.mem_cons_self)
  refine ⟨_, ?_, ?_, ?_, fun other hother => ?_, hresult.trans (result_enterOrRefuse hv)⟩
  · rfl
  · rfl
  · exact hs'
  show (((s.scope.push []).bind (bindingName name) v).find other).elements? = none
  rw [Scope.find_bind_push]
  split
  · exact hv
  · exact hscalar other (List.mem_cons_of_mem _ hother)

theorem result_of_refuse (hname : name ≠ "") (hload : env.load name true = .ok t)
    (hs : Current env s) (hscalar : (s.scope.find name).elements? = none) :
    result (renderNodes env ⟨loadPartial env, none⟩
      [.inclusion line (plainInclusion name markup)]) s = .error (tooDeep env name line s) := by
  obtain ⟨v, _, hv, ⟨reads, partials, rfl⟩, hs', hresult⟩ := result_plain hname hload hs hscalar
  exact hresult

end

theorem result_of_room (h : Nested env inner names ns) (room : Nat) (hroom : names.length ≤ room)
    {s : Session} (hs : Current env s) (hscalar : Scalar names s) :
    ∃ s', s'.output = s.output ∧ s'.depth = s.depth + names.length ∧
      result (renderWithin env (loadPartial env) room ns) s =
        result (renderWithin env (loadPartial env) (room - names.length) inner) s' := by
  induction h generalizing room s with
  | inner => exact ⟨s, rfl, rfl, rfl⟩
  | @outer name names t line markup hname hload hnested ih =>
    cases room with
    | zero => simp at hroom
    | succ room =>
      obtain ⟨s₁, houtput, hdepth, hs₁, hscalar₁, hresult⟩ :=
        result_of_enter (renderWithin env (loadPartial env) room) line markup hname hload hs hscalar
      -- The partial is rendered in a session of its own, so the induction is for all sessions.
      obtain ⟨s₂, houtput₂, hdepth₂, hresult₂⟩ :=
        ih room (Nat.le_of_succ_le_succ hroom) hs₁ hscalar₁
      refine ⟨s₂, houtput₂.trans houtput, ?_, ?_⟩
      · rw [hdepth₂, hdepth, List.length_cons]
        omega
      · rw [List.length_cons, Nat.add_sub_add_right]
        exact hresult.trans hresult₂

theorem result_of_no_room (h : Nested env inner names ns) (room : Nat) (hroom : room < names.length)
    {s : Session} (hs : Current env s) (hscalar : Scalar names s) :
    ∃ line s', s'.depth = s.depth + room ∧
      result (renderWithin env (loadPartial env) room ns) s =
        .error (tooDeep env names[room] line s') := by
  induction h generalizing room s with
  | inner => simp at hroom
  | @outer name names t line markup hname hload hnested ih =>
    cases room with
    | zero => exact ⟨line, s, rfl, result_of_refuse hname hload hs (hscalar name (by simp))⟩
    | succ room =>
      obtain ⟨s₁, houtput, hdepth, hs₁, hscalar₁, hresult⟩ :=
        result_of_enter (renderWithin env (loadPartial env) room) line markup hname hload hs hscalar
      obtain ⟨line', s₂, hdepth₂, hresult₂⟩ := ih room (Nat.lt_of_succ_lt_succ hroom) hs₁ hscalar₁
      refine ⟨line', s₂, ?_, hresult.trans hresult₂⟩
      rw [hdepth₂, hdepth]
      omega

end

end Render

end Stencil
