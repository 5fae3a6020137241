import Stencil.Proofs.Render.Nesting

/-!
# Partials that are read anew

A rendering that remembers its partials, in step with one that reads a partial at every inclusion.
Since the loader answers a name the same way each time, nobody can tell the two apart by what they
write or by the error that ends them.
-/

namespace Stencil

open Markup

namespace Render

/-! ## Sessions that differ in what was read -/

/-- What the first session remembers is still what the loader has. -/
structure Alike (env : Environment) (s s' : Session) : Prop where
  sameButReads : ReadsMore s s'
  current : Current env s

/-- Both succeed with the same value, or both fail with the same error, in sessions alike. -/
inductive EndAlike {α : Type} (env : Environment) :
    EStateM.Result Error Session α → EStateM.Result Error Session α → Prop
  | ok {a : α} {s s' : Session} : Alike env s s' → EndAlike env (.ok a s) (.ok a s')
  | error {e : Error} {s s' : Session} : Alike env s s' → EndAlike env (.error e s) (.error e s')

def InStep {α : Type} (env : Environment) (x y : Render α) : Prop :=
  ∀ ⦃s s'⦄, Alike env s s' → EndAlike env (x s) (y s')

/-! ## Actions in step -/

section

variable {env : Environment} {α β : Type}

theorem InStep.andThen {x y : Render α} {f g : α → Render β} (hxy : InStep env x y)
    (hfg : ∀ a, InStep env (f a) (g a)) : InStep env (x >>= f) (y >>= g) := by
  intro s s' h
  have hends := hxy h
  show EndAlike env (EStateM.bind x f s) (EStateM.bind y g s')
  unfold EStateM.bind
  generalize x s = r at hends ⊢
  generalize y s' = r' at hends ⊢
  cases hends with
  | ok hs => exact hfg _ hs
  | error hs => exact .error hs

theorem inStep_pure (a : α) : InStep env (pure a) (pure a) := fun _ _ h => .ok h

theorem inStep_throw (e : Error) : InStep env (throw e : Render α) (throw e) :=
  fun _ _ h => .error h

theorem InStep.looking {f g : Session → Render α}
    (h : ∀ s reads partials,
      InStep env (f s) (g { s with reads := reads, partials := partials })) :
    InStep env (get >>= f) (get >>= g) := by
  intro s s' hs
  obtain ⟨reads, partials, rfl⟩ := hs.sameButReads
  exact h s reads partials hs

/-- A change to the session that the reads have no part in. -/
def Unread (f : Session → Session) : Prop :=
  ∀ s reads partials, f { s with reads := reads, partials := partials } =
    { f s with reads := reads, partials := partials }

theorem Alike.map {f : Session → Session} (hf : Unread f) {s s' : Session} (h : Alike env s s') :
    Alike env (f s) (f s') := by
  obtain ⟨reads, partials, rfl⟩ := h.sameButReads
  have hsame : f s = { f s with reads := s.reads, partials := s.partials } :=
    hf s s.reads s.partials
  have hpartials : (f s).partials = s.partials := by rw [hsame]
  refine ⟨⟨reads, partials, hf s reads partials⟩, ?_⟩
  intro name t hlookup
  rw [hpartials] at hlookup
  exact h.current name t hlookup

theorem inStep_modify {f : Session → Session} (hf : Unread f) :
    InStep env (modify f : Render PUnit) (modify f) := fun _ _ h => .ok (h.map hf)

theorem inStep_evaluating (line : Option Int) (eval : Setting → Except Error α) :
    InStep env (evaluating env line eval) (evaluating env line eval) := by
  intro s s' h
  obtain ⟨reads, partials, rfl⟩ := h.sameButReads
  unfold evaluating Session.setting
  cases eval _ with
  | ok a => exact .ok h
  | error e => exact .error h

theorem inStep_evaluate (line : Option Int) (e : Expr) :
    InStep env (evaluate env line e) (evaluate env line e) := inStep_evaluating line _

theorem inStep_write (text : String) : InStep env (write text) (write text) :=
  inStep_modify fun _ _ _ => rfl

theorem inStep_bind (name : String) (v : Value) :
    InStep env (Render.bind name v) (Render.bind name v) := inStep_modify fun _ _ _ => rfl

theorem InStep.bracket {x y : Render α} (hxy : InStep env x y) (enter : Session → Session)
    (leave : Session → Session → Session) (henter : Unread enter) (hleave : ∀ s, Unread (leave s))
    (hsame : ∀ s reads partials, leave { s with reads := reads, partials := partials } = leave s) :
    InStep env (fun s => ensuring (leave s) x (enter s))
      (fun s => ensuring (leave s) y (enter s)) := by
  intro s s' h
  have hends := hxy (h.map henter)
  obtain ⟨reads, partials, rfl⟩ := h.sameButReads
  show EndAlike env (ensuring (leave s) x (enter s)) (ensuring (leave _) y (enter _))
  rw [hsame s reads partials]
  unfold ensuring
  generalize x (enter s) = r at hends ⊢
  generalize y (enter _) = r' at hends ⊢
  cases hends with
  | ok ht => exact .ok (ht.map (hleave s))
  | error ht => exact .error (ht.map (hleave s))

theorem InStep.inFrame {x y : Render α} (h : InStep env x y) :
    InStep env (Render.inFrame x) (Render.inFrame y) := by
  refine h.bracket (fun s => { s with scope := s.scope.push [] })
    (fun _ s' => { s' with scope := s'.scope.dropTop }) ?_ ?_ ?_
  · intro s reads partials; rfl
  · intro s s' reads partials; rfl
  · intro s reads partials; rfl

theorem InStep.insidePartial {x y : Render α} (h : InStep env x y) (name : String) (line : Int) :
    InStep env (Render.insidePartial name line x) (Render.insidePartial name line y) := by
  refine h.bracket
    (fun s => { s with
      template := some name, isPartial := true, depth := s.depth + 1
      chain := s.chain ++ link s.template line })
    (fun s s' => { s' with
      template := s.template, isPartial := s.isPartial, depth := s.depth, chain := s.chain })
    ?_ ?_ ?_
  · intro s reads partials; rfl
  · intro s s' reads partials; rfl
  · intro s reads partials; rfl

theorem InStep.capture {x y : Render Unit} (h : InStep env x y) :
    InStep env (Render.capture x) (Render.capture y) := by
  intro s s' hs
  have hunread : ∀ text, Unread fun s => { s with output := text } := fun _ _ _ _ => rfl
  have hends := h (hs.map (hunread ""))
  obtain ⟨reads, partials, rfl⟩ := hs.sameButReads
  unfold Render.capture
  generalize x _ = r at hends ⊢
  generalize y _ = r' at hends ⊢
  cases hends with
  | @ok _ t t' ht =>
    have houtput : t'.output = t.output := by
      obtain ⟨_, _, rfl⟩ := ht.sameButReads
      rfl
    show EndAlike env _ (.ok t'.output { t' with output := s.output })
    rw [houtput]
    exact .ok (ht.map (hunread s.output))
  | error ht => exact .error (ht.map (hunread s.output))

end

/-! ## Looking around -/

section

variable {env : Environment}

theorem inStep_boundValue (line : Int) (i : Inclusion) (name : String) :
    InStep env (boundValue env line i name) (boundValue env line i name) := by
  unfold boundValue
  split
  · exact inStep_evaluate _ _
  · refine .looking fun s reads partials => ?_
    dsimp only
    generalize s.scope.find name = v
    cases v <;> exact inStep_pure _

theorem inStep_partialName (line : Int) (i : Inclusion) :
    InStep env (partialName env line i) (partialName env line i) :=
  (inStep_evaluate _ _).andThen fun _ => inStep_evaluating _ _

theorem inStep_refuse (name : String) (line : Int) :
    InStep env (refuse env name line : Render Unit) (refuse env name line) := by
  intro s s' h
  obtain ⟨reads, partials, rfl⟩ := h.sameButReads
  exact .error h

theorem inStep_loopArgument (line : Int) (e : Option Expr) :
    InStep env (loopArgument env line e) (loopArgument env line e) := by
  unfold loopArgument
  split
  · exact inStep_pure _
  · refine (inStep_evaluate _ _).andThen fun v => ?_
    split
    · exact inStep_pure _
    · exact inStep_evaluating _ _

theorem inStep_loopItems (line : Int) (head : LoopHead) :
    InStep env (loopItems env line head) (loopItems env line head) := by
  refine (inStep_evaluate _ _).andThen fun v => ?_
  split
  · exact inStep_throw _
  · refine (inStep_loopArgument _ _).andThen fun offset => ?_
    exact (inStep_loopArgument _ _).andThen fun limit => inStep_pure _

end

/-! ## Loops and bindings -/

section

variable {env : Environment} {x y : Render Unit}

theorem inStep_iterate (h : InStep env x y) (owner : LoopOwner) (name : String) (index0 : Nat)
    (items : List Value) :
    InStep env (iterate owner name x index0 items) (iterate owner name y index0 items) := by
  induction items generalizing index0 with
  | nil => exact inStep_pure _
  | cons item items ih =>
    have hadvance : InStep env (advance owner index0 name item) (advance owner index0 name item) :=
      (inStep_modify fun _ _ _ => rfl).andThen fun _ => inStep_bind _ _
    exact hadvance.andThen fun _ => h.andThen fun _ => ih _

theorem inStep_runLoop (h : InStep env x y) (name : String) (items : List Value) :
    InStep env (runLoop name items x) (runLoop name items y) := by
  refine .inFrame (.looking fun s reads partials => ?_)
  exact (inStep_bind _ _).andThen fun _ => inStep_iterate h _ _ _ _

theorem inStep_bindAttributes (line : Int) (attributes : List (String × Expr)) :
    InStep env (bindAttributes env line attributes) (bindAttributes env line attributes) := by
  induction attributes with
  | nil => exact inStep_pure _
  | cons first rest ih =>
    refine (inStep_evaluate _ _).andThen fun v => ?_
    exact (inStep_bind _ _).andThen fun _ => ih

theorem inStep_renderEach (h : InStep env x y) (name : String) (vs : List Value) :
    InStep env (renderEach name x vs) (renderEach name y vs) := by
  induction vs with
  | nil => exact inStep_pure _
  | cons v vs ih => exact (inStep_bind _ _).andThen fun _ => h.andThen fun _ => ih

theorem inStep_renderBound (h : InStep env x y) (name : String) (bound : Bound) :
    InStep env (renderBound name x bound) (renderBound name y bound) := by
  cases bound <;> exact inStep_renderEach h _ _

theorem inStep_writeValue (v : Value) : InStep env (writeValue env v) (writeValue env v) := by
  unfold writeValue
  split
  · exact inStep_write _
  · exact inStep_throw _

theorem inStep_writeChanged (text : String) :
    InStep env (writeChanged text) (writeChanged text) := by
  refine .looking fun s reads partials => ?_
  show InStep env _ (if s.lastChanged = some text then pure () else _)
  split
  · exact inStep_pure _
  · exact (inStep_modify fun _ _ _ => rfl).andThen fun _ => inStep_write _

end

/-! ## Partials -/

section

variable {env : Environment}

theorem exists_asked (env : Environment) (name : String) (s : Session) :
    ∃ reads, asked env name s = { s with reads := reads } := by
  unfold asked
  split <;> exact ⟨_, rfl⟩

theorem Alike.asked {s s' : Session} (h : Alike env s s') (name : String) :
    Alike env (Render.asked env name s) (Render.asked env name s') := by
  obtain ⟨reads, hs⟩ := exists_asked env name s
  obtain ⟨reads', hs'⟩ := exists_asked env name s'
  obtain ⟨_, partials, rfl⟩ := h.sameButReads
  rw [hs, hs']
  exact ⟨⟨reads', partials, rfl⟩, h.current⟩

/-- Whatever is remembered, it is what the loader still has. -/
theorem inStep_loadPartial (name : String) :
    InStep env (loadPartial env name) (loadTemplate env name true) := by
  intro s s' h
  cases hload : env.load name true with
  | ok t =>
    obtain ⟨s₁, hread, hcurrent⟩ := loadPartial_of_current h.current hload
    have hreads : ReadsMore s s₁ := after_of_ok hread ▸ readsMore_loadPartial env name s
    obtain ⟨reads', hasked⟩ := exists_asked env name s'
    rw [loadTemplate_of_ok hload, hread, hasked]
    refine .ok ⟨?_, hcurrent⟩
    obtain ⟨_, _, rfl⟩ := hreads
    obtain ⟨_, partials', rfl⟩ := h.sameButReads
    exact ⟨reads', partials', rfl⟩
  | error e =>
    -- What cannot be read now was not read before either, for it would be there still.
    have hunknown : s.partials.lookup name = none := by
      cases hfound : s.partials.lookup name with
      | none => rfl
      | some t =>
        have hstill := h.current name t hfound
        rw [hload] at hstill
        cases hstill
    rw [loadTemplate_of_error hload, loadPartial_of_failed hunknown hload]
    exact .error (h.asked name)

/-- Both find the same partials, and render the nodes of one in step, or neither renders any. -/
structure Partials.InStep (env : Environment) (partials partials' : Partials) : Prop where
  find : ∀ name, Render.InStep env (partials.find name) (partials'.find name)
  enter : Option.Rel (fun enter enter' => ∀ nodes, Render.InStep env (enter nodes) (enter' nodes))
    partials.enter partials'.enter

variable {partials partials' : Partials}

theorem inStep_renderInclusion (hp : partials.InStep env partials') (line : Int) (i : Inclusion) :
    InStep env (renderInclusion env partials line i) (renderInclusion env partials' line i) := by
  refine (inStep_partialName _ _).andThen fun name => ?_
  refine (hp.find name).andThen fun t => ?_
  refine (inStep_boundValue _ _ _).andThen fun v => ?_
  have henter := hp.enter
  generalize partials.enter = enter at henter ⊢
  generalize partials'.enter = enter' at henter ⊢
  cases henter with
  | none => exact inStep_refuse _ _
  | some henter =>
    refine .insidePartial (.inFrame ((inStep_bindAttributes _ _).andThen fun _ => ?_)) _ _
    exact inStep_renderBound (henter t.nodes) _ _

/-! ## Nodes -/

mutual

theorem inStep_renderNode (hp : partials.InStep env partials') (node : Node) :
    InStep env (renderNode env partials node) (renderNode env partials' node) := by
  cases node with
  | text line value => exact inStep_write _
  | output line markup e => exact (inStep_evaluate _ _).andThen fun v => inStep_writeValue v
  | raw line name body => exact inStep_write _
  | comment line name body => exact inStep_pure _
  | assign line assignment => exact (inStep_evaluate _ _).andThen fun v => inStep_bind _ _
  | ifChanged line body =>
    have hbody := inStep_renderNodes hp body
    exact (InStep.capture (.inFrame hbody)).andThen fun text => inStep_writeChanged _
  | conditional line isNegated branches otherwise =>
    refine (inStep_renderBranches hp line isNegated branches).andThen fun rendered => ?_
    split
    · exact inStep_pure _
    · exact inStep_renderNodes hp otherwise
  | loop line head body otherwise =>
    refine (inStep_loopItems _ _).andThen fun items => ?_
    split
    · exact inStep_renderNodes hp otherwise
    · exact inStep_runLoop (inStep_renderNodes hp body) _ _
  | inclusion line i => exact inStep_renderInclusion hp _ _
  | inline line tag markup => exact .looking fun s reads partials => inStep_write _

theorem inStep_renderNodes (hp : partials.InStep env partials') (nodes : List Node) :
    InStep env (renderNodes env partials nodes) (renderNodes env partials' nodes) := by
  cases nodes with
  | nil => exact inStep_pure _
  | cons node nodes =>
    exact (inStep_renderNode hp node).andThen fun _ => inStep_renderNodes hp nodes

theorem inStep_renderBranches (hp : partials.InStep env partials') (line : Nat)
    (isNegated : Bool) (branches : List (Chain × List Node)) :
    InStep env (renderBranches env partials line isNegated branches)
      (renderBranches env partials' line isNegated branches) := by
  cases branches with
  | nil => exact inStep_pure _
  | cons branch rest =>
    obtain ⟨condition, body⟩ := branch
    refine (inStep_evaluating _ _).andThen fun holds => ?_
    split
    · exact (inStep_renderNodes hp body).andThen fun _ => inStep_pure _
    · exact inStep_renderBranches hp line false rest

end

theorem inStep_renderWithin (room : Nat) (ns : List Node) :
    InStep env (renderWithin env (loadPartial env) room ns)
      (renderWithin env (fun name => loadTemplate env name true) room ns) := by
  induction room generalizing ns with
  | zero => exact inStep_renderNodes ⟨inStep_loadPartial, .none⟩ ns
  | succ room ih => exact inStep_renderNodes ⟨inStep_loadPartial, .some ih⟩ ns

end

/-! ## Whole templates -/

/-- Renders nodes in a session that reads a partial at every inclusion. -/
def nodesAnew (env : Environment) (nodes : List Node) : Render Unit := do
  renderWithin env (fun name => loadTemplate env name true) (room env (← get)) nodes

theorem inStep_nodes (env : Environment) (ns : List Node) :
    InStep env (nodes env ns) (nodesAnew env ns) :=
  .looking fun _ _ _ => inStep_renderWithin _ _

theorem result_eq_of_inStep {env : Environment} {x y : Render Unit} (h : InStep env x y)
    {s s' : Session} (hs : Alike env s s') : result x s = result y s' := by
  have hends := h hs
  unfold result
  generalize x s = r at hends ⊢
  generalize y s' = r' at hends ⊢
  cases hends with
  | ok ht =>
    obtain ⟨_, _, rfl⟩ := ht.sameButReads
    rfl
  | error ht => rfl

end Render

/-- The text of a template that is rendered in a session of its own and reads each partial anew. -/
def Template.renderAnew (env : Environment) (t : Template) (bindings : Frame) :
    Except Error String :=
  match Render.nodesAnew env t.nodes (Session.start env bindings t.name) with
  | .ok () s => .ok s.output
  | .error e _ => .error e

/-- A partial that is remembered is as good as one that is read again. -/
theorem Template.render_eq_renderAnew (env : Environment) (t : Template) (bindings : Frame) :
    t.render env bindings = t.renderAnew env bindings :=
  Render.result_eq_of_inStep (Render.inStep_nodes env t.nodes)
    ⟨⟨_, _, rfl⟩, nofun⟩

end Stencil
